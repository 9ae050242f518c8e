import AgentHub.Channels.Equiv.Changes
import AgentHub.Channels.Equiv.Verdict
import AgentHub.Tenure

/-!
# Leases exclude each other

In every state that the claim operations reach, the claims that are stored under the key of a resource
are of different agents, and no two of them that conflict are granted: `leases_exclude`.  The statuses
are stored, so that this is kept from one operation to the next (`tenured_perform`): a claim, a renewal
and a release compute them anew for all the claims they write, and a resolution grants one claim alone.
-/

namespace AgentHub.Channels

open AgentHub.Validation AgentHub.Outbox AgentHub.Hub Program Store

/-! ### Claims that conflict -/

theorem claimConflicts_comm (left right : OwnershipClaim) :
    claimConflicts left right = claimConflicts right left := by
  unfold claimConflicts
  cases left.mode with
  | exclusive => cases right.mode <;> rfl
  | shared => cases right.mode <;> rfl
  | sharedNamespaced =>
    cases right.mode with
    | exclusive => rfl
    | shared => rfl
    | sharedNamespaced =>
      cases namespaceOf left with
      | none => cases namespaceOf right <;> rfl
      | some a =>
        cases namespaceOf right with
        | none => rfl
        | some b => exact decide_eq_decide.2 eq_comm

/-- The claims of agents on a resource. -/
def ownership : Tenure OwnershipClaim String where
  holder := OwnershipClaim.agent
  Granted claim := claim.status = .granted
  conflicts := claimConflicts
  symm := claimConflicts_comm

/-- A claim whose status is computed anew is granted where it conflicts with no other. -/
theorem conflicts_of_recompute {claims : List OwnershipClaim} {a b : OwnershipClaim}
    (ha : a ∈ recomputeClaimStatuses claims) (hb : b ∈ recomputeClaimStatuses claims)
    (hne : a.agent ≠ b.agent) (hgranted : a.status = .granted) : claimConflicts a b = false := by
  obtain ⟨⟨claim, idx⟩, hclaim, rfl⟩ := List.mem_map.1 ha
  obtain ⟨⟨other, idx'⟩, hother, rfl⟩ := List.mem_map.1 hb
  have hidx : idx ≠ idx' := by
    rintro rfl
    have hleft := (List.mem_zipIdx hclaim).2.2
    have hright := (List.mem_zipIdx hother).2.2
    obtain rfl : claim = other := hleft.trans hright.symm
    exact hne rfl
  have hfree : conflicted claims claim idx = false := by
    rw [Bool.eq_false_iff]
    intro hconflicted
    dsimp only at hgranted
    rw [if_pos hconflicted] at hgranted
    cases hgranted
  show claimConflicts claim other = false
  rw [conflicted, List.any_eq_false] at hfree
  simpa [hidx] using hfree _ hother

/-- **Statuses that are computed anew.** -/
theorem excludes_recompute {claims : List OwnershipClaim}
    (hagents : claims.Pairwise fun a b => a.agent ≠ b.agent) :
    ownership.Excludes (recomputeClaimStatuses claims) := by
  have hholders : (recomputeClaimStatuses claims).Pairwise fun a b => a.agent ≠ b.agent :=
    agents_congr hagents (map_agent_recompute claims)
  refine Tenure.excludes_of_computed hholders ?_
  intro a ha b hb hne hgranted
  exact conflicts_of_recompute ha hb hne hgranted

theorem excludes_outcome {claims : List OwnershipClaim} (winner : String)
    (hagents : claims.Pairwise fun a b => a.agent ≠ b.agent) :
    ownership.Excludes (claims.map (outcome winner)) := by
  have hholders : (claims.map (outcome winner)).Pairwise fun a b => a.agent ≠ b.agent := by
    rw [List.pairwise_map]
    exact hagents
  refine Tenure.excludes_of_award winner hholders ?_
  intro a ha hgranted
  obtain ⟨claim, -, rfl⟩ := List.mem_map.1 ha
  by_contra hne
  have hother : claim.agent ≠ winner := hne
  have hstatus : (if claim.agent = winner then ClaimStatus.granted else .reviewAssigned) =
      .granted := hgranted
  rw [if_neg hother] at hstatus
  cases hstatus

section Stored

variable {lib : Library} {key : String} {s t : Store}

/-! ### Claims that are stored -/

/-- The claims that are stored under a key, whether they have expired or not. -/
def storedClaims (lib : Library) (key : String) (s : Store) : List OwnershipClaim :=
  (s.fields key).filterMap fun f => lib.readClaim f.2

theorem mem_storedClaims (h : Entries (fun _ => True) key s) {claim : OwnershipClaim} :
    claim ∈ storedClaims lib key s ↔ (claim.agent, claimText claim) ∈ s.fields key := by
  rw [storedClaims, List.mem_filterMap]
  constructor
  · rintro ⟨f, hf, hread⟩
    obtain ⟨written, -, -, rfl⟩ := h f hf
    rw [lib.readClaim_text] at hread
    obtain rfl := Option.some.inj hread
    exact hf
  · intro hmem
    exact ⟨_, hmem, lib.readClaim_text claim⟩

/-- The fields of a hash are under different names. -/
theorem fields_pairwise (s : Store) (key : String) : (s.fields key).Pairwise fun f g => f.1 ≠ g.1 := by
  unfold Store.fields
  cases s.hashes key with
  | none => exact List.Pairwise.nil
  | some slot => exact slot.value.unique

/-- Nothing but claims is stored under the key, and they exclude each other. -/
structure Tenured (lib : Library) (key : String) (s : Store) : Prop where
  entries : Entries (fun _ => True) key s
  excludes : ownership.Excludes (storedClaims lib key s)

/-- Every field is one of some claims that exclude each other. -/
theorem Tenured.of_entries {claims : List OwnershipClaim} (h : Entries (· ∈ claims) key s)
    (hclaims : ownership.Excludes claims) : Tenured lib key s := by
  have hentries : Entries (fun _ => True) key s := h.mono fun _ _ => trivial
  refine ⟨hentries, hclaims.of_subset ?_ ?_⟩
  · intro claim hmem
    obtain ⟨written, -, hwritten, heq⟩ := h _ ((mem_storedClaims hentries).1 hmem)
    have htext : claimText claim = claimText written := congrArg Prod.snd heq
    have hread := lib.readClaim_text claim
    rw [htext, lib.readClaim_text] at hread
    exact Option.some.inj hread ▸ hwritten
  · rw [storedClaims, List.pairwise_filterMap]
    refine (fields_pairwise s key).imp_of_mem ?_
    intro f g hf hg hne a ha b hb
    obtain ⟨written, -, -, rfl⟩ := h f hf
    obtain ⟨written', -, -, rfl⟩ := h g hg
    rw [lib.readClaim_text] at ha hb
    obtain rfl := Option.some.inj ha
    obtain rfl := Option.some.inj hb
    exact hne

theorem Tenured.mem (h : Tenured lib key s) : Entries (· ∈ storedClaims lib key s) key s := by
  intro f hf
  obtain ⟨claim, hvalid, -, rfl⟩ := h.entries f hf
  exact ⟨claim, hvalid, (mem_storedClaims h.entries).2 hf, rfl⟩

/-- What a load gives. -/
theorem Tenured.loaded (h : Tenured lib key s) (env : Nat → CallEnv) :
    ownership.Excludes (loaded lib key env s) := by
  refine h.excludes.of_subset h.mem.loaded ?_
  exact h.entries.sound.agents

/-! ### Operations -/

/-- **The claims that an operation writes.** -/
theorem excludes_changes {i : ClaimInput} {claims : List OwnershipClaim}
    (hentries : Entries (fun _ => True) key s) (h : Changes lib key s i claims) :
    ownership.Excludes claims := by
  cases h with
  | @claim resource agent priorityArgument options env expiresAt hcheck hexpires =>
    refine excludes_recompute ?_
    have hwaited : Entries (fun _ => True) key (s.wait (env 0).delay) := hentries
    refine List.pairwise_append.2 ⟨hwaited.sound.agents.filter _, List.pairwise_singleton _ _, ?_⟩
    intro a ha b hb
    rw [List.mem_singleton.1 hb]
    simpa [newClaim] using (List.mem_filter.1 ha).2
  | renew hnow hold hexpires =>
    refine excludes_recompute ?_
    exact agents_congr hentries.sound.agents (map_agent_renewFirst _ _)
  | release hsome => exact excludes_recompute (hentries.sound.agents.filter _)
  | resolve hne => exact excludes_outcome _ hentries.sound.agents

/-- **An operation** on the resource, on another, or a listing. -/
theorem tenured_perform (hplain : Plain key) (h : Tenured lib key s) (i : ClaimInput) :
    Tenured lib key (s.perform lib i).1 := by
  have hsame : ∀ resource, claimsRedisKey resource = key →
      (∀ other ∈ i.op.resource?, other = resource) → Tenured lib key (s.perform lib i).1 := by
    rintro resource rfl hop
    -- the claims are those of before, or a change of them was written
    rcases entries_perform h.mem hop h.mem with hkept | ⟨claims, hchanges, -, hwritten⟩
    · exact Tenured.of_entries hkept h.excludes
    · exact Tenured.of_entries hwritten (excludes_changes h.entries hchanges)
  cases hop : i.op.resource? with
  | some other =>
    by_cases hkey : claimsRedisKey other = key
    · -- the key tells the resource, as the prefix is the same
      refine hsame other hkey fun resource hresource => ?_
      rw [hop] at hresource
      exact (Option.some.inj hresource).symm
    · -- a resource of another name changes neither of its keys in this one
      have hother : key ∉ resourceKeys other := by
        have hresolution := hplain.ne_resolution (claimsKey other)
        simpa [resourceKeys] using ⟨fun heq => hkey heq.symm, hresolution⟩
      have hkept : Entries (· ∈ storedClaims lib key s) key (s.perform lib i).1 :=
        entries_run (only_program lib hop (admits_enters hother)) i.env h.mem
      exact Tenured.of_entries hkept h.excludes
  | none =>
    obtain ⟨op, env⟩ := i
    cases op with
    -- a listing deletes what has expired and writes no claim
    | list resourceFilter statusFilter =>
      have hkept : Entries (· ∈ storedClaims lib key s) key
          (s.perform lib ⟨.list resourceFilter statusFilter, env⟩).1 := by
        refine entries_run ?_ env h.mem
        exact only_list lib resourceFilter statusFilter fun k => admitsLoad_enters _ key k
      exact Tenured.of_entries hkept h.excludes
    | claim => cases hop
    | renew => cases hop
    | release => cases hop
    | resolve => cases hop
    | state => cases hop

theorem tenured_exec (hplain : Plain key) (is : List ClaimInput) :
    Tenured lib key ((claimBus lib).exec {} is).1 := by
  refine (claimBus lib).exec_induction (P := fun _ t _ => Tenured lib key t) ?_ ?_ is
  · constructor
    · intro _ hf
      cases hf
    · exact Tenure.excludes_nil
  · exact fun _ _ _ i ht => tenured_perform hplain ht i

end Stored

/-! ### Grants -/

/-- A claim that is returned as granted conflicts with none that is stored for another agent. -/
def Sole (key : String) (r : Except ClaimError OwnershipClaim) (t : Store) : Prop :=
  ∀ claim, r = .ok claim → claim.status = .granted →
    Entries (fun other => other.agent ≠ claim.agent → claimConflicts claim other = false) key t

section Grants

seal persistClaims

variable {lib : Library} {C : RedisCall → CallEnv → Store → Prop} {s : Store}

theorem sole_error {key : String} (e : ClaimError) (t : Store) : Sole key (.error e) t := by
  intro claim hok
  cases hok

theorem wp_any {α : Type} (p : Claiming α) : Wp lib C p (fun _ _ => True) s :=
  wp_mono (serve lib) ClaimError.panicked C (fun _ _ _ => trivial) (wp_clock lib p)

/-- What comes before the claims are written. -/
theorem wp_before {α : Type} {key : String} {p : Claiming α} {f : α → Claiming OwnershipClaim}
    (hf : ∀ a t, Wp lib C (f a) (Sole key) t) : Wp lib C (p >>= f) (Sole key) s :=
  wp_then (fun _ _ => True) (wp_any p) (fun a t _ => hf a t) fun e t _ => sole_error e t

/-- What is returned as granted is one of these. -/
def GrantedFrom (claims : List OwnershipClaim) (r : Except ClaimError OwnershipClaim) : Prop :=
  ∀ given, r = .ok given → given.status = .granted → given ∈ claims

theorem grantedFrom_error (claims : List OwnershipClaim) (e : ClaimError) : GrantedFrom claims (.error e) := by
  intro given hok
  cases hok

/-- The claims are written with their statuses computed anew, and one of them is returned. -/
theorem wp_persist_sole {key : String} {claims : List OwnershipClaim} {now : Nat}
    {f : Unit → Claiming OwnershipClaim} (hquiet : Only (Quiet key) (f ()))
    (hreply : ∀ t, Wp lib C (f ()) (fun r _ => GrantedFrom (recomputeClaimStatuses claims) r) t) :
    Wp lib C (persistClaims key (recomputeClaimStatuses claims) now >>= f) (Sole key) s := by
  refine wp_then _ (wp_persist_entries (Q := (· ∈ recomputeClaimStatuses claims)) fun _ h => h) ?_
    fun e t _ => sole_error e t
  intro _ t hentries
  have hkept : Wp lib C (f ()) (fun _ u => Entries (· ∈ recomputeClaimStatuses claims) key u) t :=
    wp_entries (hquiet.imp fun c hc => hc.enters) (hentries rfl)
  refine wp_mono (serve lib) ClaimError.panicked C ?_ (wp_and _ _ _ hkept (hreply t))
  rintro r u ⟨hu, hgiven⟩ given rfl hgranted
  refine hu.mono fun other hother hne => ?_
  exact conflicts_of_recompute (hgiven given rfl hgranted) hother (Ne.symm hne) hgranted

/-- **A claim.** -/
theorem wp_claim_sole (resource agent priorityArgument : String) (options : ClaimOptions) :
    Wp lib C (claimResourceWithOptions lib resource agent priorityArgument options)
      (Sole (claimsRedisKey resource)) s := by
  unfold claimResourceWithOptions
  refine wp_before fun _ _ => wp_before fun now _ => wp_before fun expiresAt _ => ?_
  refine wp_before fun loaded _ => ?_
  have hidle := (admitsLoad_quiet (claimsRedisKey resource) "").idle
  refine wp_persist_sole ?_ fun t => ?_
  · dsimp only
    split
    · exact only_check (.error _)
    · exact (only_claimNotices hidle _ _ _ _ _).bind fun _ => only_done _
  · dsimp only
    split
    · exact grantedFrom_error _ _
    · rename_i claim hfind
      refine wp_then (fun _ _ => True) (wp_any _) ?_ fun e _ _ => grantedFrom_error _ e
      rintro _ u - given hgiven hgranted
      obtain rfl := Except.ok.inj hgiven
      split at hgranted
      · rename_i hcontested
        rw [hcontested] at hgranted
        cases hgranted
      · rename_i hfree
        rw [if_neg hfree]
        exact List.mem_of_find?_eq_some hfind

/-- **A renewal.** -/
theorem wp_renew_sole (resource agent : String) (leaseTtlSeconds : Option UInt64) :
    Wp lib C (renewClaim lib resource agent leaseTtlSeconds) (Sole (claimsRedisKey resource)) s := by
  unfold renewClaim
  refine wp_before fun loaded _ => wp_before fun now _ => ?_
  dsimp only
  split
  · exact sole_error _ _
  · rename_i old hold
    refine wp_before fun expiresAt _ => ?_
    have hidle := (admitsLoad_quiet (claimsRedisKey resource) "").idle
    refine wp_persist_sole ?_ fun t => ?_
    · exact (only_command (hidle _ rfl)).bind fun _ => only_done _
    · refine wp_then (fun _ _ => True) (wp_any _) ?_ fun e _ _ => grantedFrom_error _ e
      rintro _ u - given hgiven -
      obtain rfl := Except.ok.inj hgiven
      -- The claim of the agent gave way to its renewal, so that one is found.
      have hname : old.agent = agent := by simpa using List.find?_some hold
      generalize hrenewed : ({ old with
        leaseTtlSeconds := max (leaseTtlSeconds.getD (UInt64.ofNat claimTtlSecs)) 1
        timestamp := formatTimestamp now
        expiresAt := some expiresAt } : OwnershipClaim) = renewed
      have hamong : ∃ claim ∈ recomputeClaimStatuses (renewFirst renewed loaded),
          claim.agent = agent := by
        rw [← List.mem_map, map_agent_recompute, map_agent_renewFirst, List.mem_map]
        exact ⟨old, List.mem_of_find?_eq_some hold, hname⟩
      obtain ⟨other, hother, hagent⟩ := hamong
      have hsome : ((recomputeClaimStatuses (renewFirst renewed loaded)).find?
          fun claim => claim.agent = agent).isSome := by
        rw [List.find?_isSome]
        exact ⟨other, hother, by simpa using hagent⟩
      obtain ⟨claim, hfind⟩ := Option.isSome_iff_exists.1 hsome
      rw [hfind]
      exact List.mem_of_find?_eq_some hfind

/-- What an operation that grants returns. -/
theorem sole_perform {key agent : String} {i : ClaimInput} (hop : i.op.grants key agent)
    {claim : OwnershipClaim} (hreply : (s.perform lib i).2 = .ok (.claim claim))
    (hgranted : claim.status = .granted) :
    Entries (fun other => other.agent ≠ claim.agent → claimConflicts claim other = false) key
      (s.perform lib i).1 := by
  have hresult : ∀ {p : Claiming OwnershipClaim},
      Wp lib (fun _ _ _ => True) p (Sole key) s → ∀ env : Nat → CallEnv,
      ((p >>= fun claim => pure (ClaimReply.claim claim)).run (serve lib) .panicked env s).2 =
        .ok (ClaimReply.claim claim) →
      Entries (fun other => other.agent ≠ claim.agent → claimConflicts claim other = false) key
        ((p >>= fun claim => pure (ClaimReply.claim claim)).run (serve lib) .panicked env s).1 := by
    intro p hp env hok
    simp only [pure_eq, run_bind_done] at hok ⊢
    obtain ⟨given, hgiven, hsame⟩ := map_eq_ok.1 hok
    obtain rfl := ClaimReply.claim.inj hsame
    -- the claims are not assumed to last: nothing here depends on the time
    have halong : p.Along (serve lib) (fun _ _ _ => True) env s :=
      along_of_forall fun _ _ _ => trivial
    exact run_of_Wp _ hp halong given hgiven hgranted
  obtain ⟨op, env⟩ := i
  cases op with
  | claim resource claimant priorityArgument options =>
    obtain ⟨rfl, rfl⟩ := hop
    exact hresult (wp_claim_sole resource claimant priorityArgument options) env hreply
  | renew resource claimant leaseTtlSeconds =>
    obtain ⟨rfl, rfl⟩ := hop
    exact hresult (wp_renew_sole resource claimant leaseTtlSeconds) env hreply
  | release => cases hop
  | resolve => cases hop
  | state => cases hop
  | list => cases hop

end Grants

/-! ### Every run -/

/-- **Leases exclude each other.**  After every run of the claim operations, on any resources and with
any time between their commands: what is stored under the key of a resource are claims of different
agents, and no two of them that conflict are granted; what a load gives of them is the same; and a
claim or a renewal that is answered granted conflicts with no claim of another agent that is stored
then. -/
theorem leases_exclude (lib : Library) (resource : String) (is : List ClaimInput) :
    let key := claimsRedisKey resource
    let s := ((claimBus lib).exec {} is).1
    Plain key →
    (∀ f ∈ s.fields key, ∃ claim ∈ storedClaims lib key s, f = (claim.agent, claimText claim)) ∧
    ownership.Excludes (storedClaims lib key s) ∧
    (∀ (env : Nat → CallEnv) (claims : List OwnershipClaim),
      ((loadActiveClaims lib key).run (serve lib) .panicked env s).2 = .ok claims →
      ownership.Excludes claims) ∧
    ∀ (i : ClaimInput) (agent : String) (claim : OwnershipClaim), i.op.grants key agent →
      (s.perform lib i).2 = .ok (.claim claim) → claim.status = .granted →
      ∀ other ∈ storedClaims lib key (s.perform lib i).1, other.agent ≠ claim.agent →
        claimConflicts claim other = false := by
  intro key s hplain
  have htenured : Tenured lib key s := tenured_exec hplain is
  refine ⟨?_, htenured.excludes, ?_, ?_⟩
  · intro f hf
    obtain ⟨claim, -, hclaim, heq⟩ := htenured.mem f hf
    exact ⟨claim, hclaim, heq⟩
  · intro env claims hload
    rw [run_load] at hload
    exact Except.ok.inj hload ▸ htenured.loaded env
  · intro i agent claim hop hreply hgranted other hother hne
    -- what is stored afterwards is what the grant was computed with
    have hentries := (tenured_perform hplain htenured i).entries
    obtain ⟨written, -, hfree, heq⟩ := sole_perform hop hreply hgranted _
      ((mem_storedClaims hentries).1 hother)
    have htext : claimText other = claimText written := congrArg Prod.snd heq
    -- the text of a claim determines it
    have hread := lib.readClaim_text other
    rw [htext, lib.readClaim_text] at hread
    obtain rfl := Option.some.inj hread
    exact hfree hne

/-- Two agents want the whole resource: neither has it at first, then one. -/
theorem leases_exclude_contest :
    statuses contest = [("a", .contested), ("b", .contested)] ∧
      statuses (contest ++ [award]) = [("a", .granted), ("b", .reviewAssigned)] ∧
      ∀ is ∈ [contest, contest ++ [award]],
        ownership.Excludes (storedClaims sampleLibrary (claimsRedisKey "x")
          ((claimBus sampleLibrary).exec {} is).1) := by
  have hawarded : AtStart (terms .granted .reviewAssigned)
      ((claimBus sampleLibrary).exec {} (contest ++ [award])).1 := by
    rw [Machine.exec_snoc_fst]
    exact award_step contest_atStart
  exact ⟨statuses_eq contest_atStart, statuses_eq hawarded,
    fun is _ => (leases_exclude sampleLibrary "x" is plain_x).2.1⟩

end AgentHub.Channels
