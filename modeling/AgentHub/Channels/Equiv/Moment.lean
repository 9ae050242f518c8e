import AgentHub.Channels.Equiv.Entries

/-!
# The claims as a list

Where no time passes, and every lease has a second left, the hash of a resource is a list of claims:
`Stands` is the relation, and each operation makes of the list what its code computes.
-/

namespace AgentHub.Channels

open AgentHub.Validation AgentHub.Outbox AgentHub.Hub Program Store

/-! ### Claims in order -/

/-- No time passes before a command. -/
def Still (_ : RedisCall) (env : CallEnv) (_ : Store) : Prop := env.delay = 0

/-- The lease of the claim has a second left. -/
def Running (lib : Library) (now : Nat) (claim : OwnershipClaim) : Prop :=
  ∃ E, expiry lib claim = some E ∧ (now : Int) + nanosPerSecond ≤ E

def entry (claim : OwnershipClaim) : String × String := (claim.agent, claimText claim)

/-- These claims are visible under the key, in this order. -/
def Stands (key : String) (claims : List OwnershipClaim) (s : Store) : Prop :=
  ((s.visible key).map Table.rows).getD [] = claims.map entry

section Lists

variable {lib : Library} {now : Nat} {claims : List OwnershipClaim}

theorem Running.open {claim : OwnershipClaim} (h : Running lib now claim) :
    claimExpired lib claim now = false := by
  obtain ⟨E, hE, hlater⟩ := h
  rw [Bool.eq_false_iff]
  intro hexpired
  obtain ⟨E', hE', hpast⟩ := claimExpired_iff.1 hexpired
  obtain rfl : E = E' := Option.some.inj (hE.symm.trans hE')
  unfold nanosPerSecond at hlater
  omega

theorem activeClaims_entries (h : ∀ claim ∈ claims, Running lib now claim) :
    activeClaims lib (claims.map entry) now = claims := by
  rw [activeClaims_eq, List.filterMap_map]
  refine (List.filterMap_congr fun claim hclaim => ?_).trans List.filterMap_some
  simp [entry, lib.readClaim_text, (h claim hclaim).open]

theorem expiredAgents_entries (h : ∀ claim ∈ claims, Running lib now claim) :
    expiredAgents lib (claims.map entry) now = [] := by
  rw [List.eq_nil_iff_forall_not_mem]
  intro agent hagent
  obtain ⟨f, hf, -, claim, hread, hexpired⟩ := mem_expiredAgents.1 hagent
  obtain ⟨given, hgiven, rfl⟩ := List.mem_map.1 hf
  obtain rfl : given = claim := Option.some.inj ((lib.readClaim_text given).symm.trans hread)
  rw [(h given hgiven).open] at hexpired
  cases hexpired

/-- The lifetime of such claims is a second at least. -/
theorem ttl_ne_zero (hne : claims ≠ []) (h : ∀ claim ∈ claims, Running lib now claim) :
    claimsHashTtlSeconds lib claims now ≠ 0 := by
  obtain ⟨claim, hclaim⟩ := List.exists_mem_of_ne_nil claims hne
  obtain ⟨E, hE, hlater⟩ := h claim hclaim
  unfold nanosPerSecond at hlater
  have hopen : (now : Int) < E := by omega
  have hle := le_claimsHashTtlSeconds hclaim hE hopen
  unfold nanosPerSecond at hle
  omega

/-- Claims of one time are in order. -/
theorem sortClaims_same {text : String} (h : ∀ claim ∈ claims, claim.timestamp = text) :
    sortClaims claims = claims := by
  refine List.mergeSort_of_pairwise (List.pairwise_of_forall_mem_list fun a ha b hb => ?_)
  rw [h a ha, h b hb]
  exact decide_eq_true (String.le_refl text)

end Lists

/-! ### Commands -/

theorem claimResolutionKey_ne (key : String) : claimResolutionKey key ≠ key := by
  intro heq
  have hlength := congrArg String.length heq
  simp [claimResolutionKey] at hlength

section Commands

variable {s : Store} {key : String}

theorem visible_hset (fields : List (String × String)) :
    (s.hset key fields).visible key =
      some (fields.foldl Table.put ((s.visible key).getD Table.empty)) := by
  unfold hset
  cases hvisible : s.visible key with
  | none => exact visible_eq_some.2 ⟨_, setKey_self, rfl, by rintro _ ⟨⟩⟩
  | some hash =>
    obtain ⟨slot, hslot, rfl, hlasts⟩ := visible_eq_some.1 hvisible
    refine visible_eq_some.2 ⟨_, setKey_self, rfl, fun deadline hdeadline => hlasts deadline ?_⟩
    simpa [Store.deadline, hslot] using hdeadline

theorem visible_expire {seconds : Nat} (h : seconds ≠ 0) :
    (s.expire key seconds).visible key = s.visible key := by
  cases hvisible : s.visible key with
  | none => simp only [expire, hvisible]
  | some hash =>
    refine visible_eq_some.2 ⟨_, (expire_hashes hvisible).trans (if_neg h), rfl, ?_⟩
    rintro _ ⟨⟩
    simp [nowMs]

theorem visible_del : (s.del key).visible key = none := by
  simp [visible, del, readKey]

variable {claims : List OwnershipClaim}

/-- A claim of a new agent comes behind the others. -/
theorem Stands.hset (h : Stands key claims s) {claim : OwnershipClaim}
    (hnew : ∀ other ∈ claims, other.agent ≠ claim.agent) :
    Stands key (claims ++ [claim]) (s.hset key [entry claim]) := by
  have hrows : ((s.visible key).getD Table.empty).rows = claims.map entry := by
    rw [← h]
    cases s.visible key with
    | none => rfl
    | some hash => rfl
  unfold Stands
  rw [visible_hset, Option.map_some, Option.getD_some, List.foldl_cons, List.foldl_nil,
    Table.rows_put, hrows, List.map_append, List.map_singleton]
  intro f hf
  rw [hrows] at hf
  obtain ⟨other, hother, rfl⟩ := List.mem_map.1 hf
  exact hnew other hother

theorem Stands.expire (h : Stands key claims s) {seconds : Nat} (hseconds : seconds ≠ 0) :
    Stands key claims (s.expire key seconds) := by
  unfold Stands
  rw [visible_expire hseconds]
  exact h

end Commands

/-! ### Operations -/

section Operations

seal persistClaims

variable {lib : Library} {s : Store} {key : String} {claims : List OwnershipClaim}

/-- A command in its moment. -/
theorem still_command {α : Type} {c : RedisCall} {f : c.Reply → Claiming α}
    {post : Except ClaimError α → Store → Prop}
    (h : ∀ scanned, Wp lib Still (f (s.execute lib scanned c).2) post
      (s.execute lib scanned c).1) : Wp lib Still (command c >>= f) post s := by
  refine wp_command fun env henv => ?_
  rw [show env.delay = 0 from henv]
  exact h env.scanned

/-- What a part of an operation makes of the claims. -/
def Becomes {α : Type} (s : Store) (key : String) (claims : List OwnershipClaim) (a : α)
    (r : Except ClaimError α) (t : Store) : Prop :=
  r = .ok a ∧ t.clock = s.clock ∧ Stands key claims t

/-- **A load.** -/
theorem still_load (h : Stands key claims s) (hrun : ∀ claim ∈ claims, Running lib s.clock claim) :
    Wp lib Still (loadActiveClaims lib key) (Becomes s key claims (sortClaims claims)) s := by
  refine still_command fun _ => still_command fun _ => ?_
  show Wp lib Still (if ((s.visible key).map Table.rows).getD [] = [] then pure [] else do
    hdelExpired key (expiredAgents lib (((s.visible key).map Table.rows).getD []) s.clock)
    refreshClaims key (activeClaims lib (((s.visible key).map Table.rows).getD []) s.clock)
      s.clock) _ s
  rw [h, activeClaims_entries hrun, expiredAgents_entries hrun]
  by_cases hne : claims = []
  · subst hne
    exact ⟨by rw [sortClaims_nil], rfl, h⟩
  · rw [if_neg (by simpa using hne), hdelExpired, if_pos rfl, refreshClaims, if_neg hne]
    have hsorted : sortClaims claims ≠ [] := fun hnil => hne (by
      rw [List.eq_nil_iff_forall_not_mem] at hnil ⊢
      exact fun claim hclaim => hnil claim (mem_sortClaims.2 hclaim))
    have hseconds := ttl_ne_zero hsorted fun claim hclaim => hrun claim (mem_sortClaims.1 hclaim)
    refine still_command fun _ => ⟨rfl, expire_clock, h.expire hseconds⟩

/-- The loop that writes claims of other agents behind those that stand there. -/
theorem still_writeClaims {before : List OwnershipClaim} (h : Stands key before s)
    (hsound : Sound (before ++ claims)) :
    Wp lib Still (writeClaims key claims) (Becomes s key (before ++ claims) ()) s := by
  induction claims generalizing s before with
  | nil => exact ⟨rfl, rfl, by rwa [List.append_nil]⟩
  | cons claim claims ih =>
    have hmem : claim ∈ before ++ claim :: claims := List.mem_append_right _ List.mem_cons_self
    have hnew : ∀ other ∈ before, other.agent ≠ claim.agent := fun other hother =>
      (List.pairwise_append.1 hsound.agents).2.2 other hother claim List.mem_cons_self
    show Wp lib Still (checked (validateClaimNulFields claim) >>= _) _ s
    rw [hsound.valid claim hmem]
    refine still_command fun _ => ?_
    have hwritten : Stands key (before ++ [claim]) (s.hset key [entry claim]) := h.hset hnew
    rw [← List.singleton_append, ← List.append_assoc] at hsound
    refine wp_mono (serve lib) ClaimError.panicked Still ?_ (ih hwritten hsound)
    rintro r t ⟨hr, hclock, hstands⟩
    refine ⟨hr, hclock.trans hset_clock, ?_⟩
    rwa [List.append_assoc, List.singleton_append] at hstands

/-- **`persist_claims`.** -/
theorem still_persistClaims {now : Nat} (hne : claims ≠ []) (hsound : Sound claims)
    (hnul : rejectNulBytes key "claim_key" = .ok ())
    (hrun : ∀ claim ∈ claims, Running lib now claim) :
    Wp lib Still (persistClaims key claims now) (Becomes s key claims ()) s := by
  unfold persistClaims checked
  rw [hnul, if_neg hne]
  refine still_command fun _ => ?_
  have hnone : Stands key [] (s.del key) := by
    unfold Stands
    rw [visible_del]
    rfl
  refine wp_then _ (still_writeClaims hnone hsound) ?_ ?_
  · rintro _ t ⟨-, hclock, hstands⟩
    refine still_command fun _ => ⟨rfl, expire_clock.trans hclock, ?_⟩
    exact hstands.expire (ttl_ne_zero hne hrun)
  · rintro e t ⟨he, -⟩
    cases he

/-- What an operation that is over leaves of the claims of a resource, at the time it was begun. -/
def Leaves {α : Type} (now : Nat) (key : String) (claims : List OwnershipClaim)
    (_ : Except ClaimError α) (t : Store) : Prop :=
  t.clock = now ∧ Stands key claims t

theorem idle_elsewhere : ∀ c : RedisCall, c.writes = [] → key ∉ c.writes := by
  intro c hc
  rw [hc]
  exact List.not_mem_nil

theorem Stands.execute (h : Stands key claims s) (lib : Library) (scanned : List String)
    {c : RedisCall} (hc : key ∉ c.writes) : Stands key claims (s.execute lib scanned c).1 := by
  unfold Stands visible nowMs
  rw [execute_other lib scanned hc, execute_clock]
  exact h

/-- Commands on other keys. -/
theorem still_elsewhere {α : Type} {p : Claiming α} (hp : Only (fun c => key ∉ c.writes) p)
    (h : Stands key claims s) : Wp lib Still p (Leaves s.clock key claims) s := by
  induction p generalizing s with
  | done a => exact ⟨rfl, h⟩
  | fail e => exact ⟨rfl, h⟩
  | call c next ih =>
    refine still_command (f := next) fun scanned => ?_
    have hrest := ih _ (hp.2 (s.execute lib scanned c).2) (h.execute lib scanned hp.1)
    rwa [execute_clock] at hrest

/-- A command on another key, and what follows it. -/
theorem still_idle {α : Type} {c : RedisCall} {f : c.Reply → Claiming α} {now : Nat}
    {after : List OwnershipClaim} (hclock : s.clock = now) (h : Stands key claims s)
    (hc : key ∉ c.writes)
    (hf : ∀ (r : c.Reply) t, t.clock = now → Stands key claims t →
      Wp lib Still (f r) (Leaves now key after) t) :
    Wp lib Still (command c >>= f) (Leaves now key after) s :=
  still_command fun scanned =>
    hf _ _ ((execute_clock lib scanned c).trans hclock) (h.execute lib scanned hc)

/-- A load and what follows it. -/
theorem still_load_then {α : Type} {f : List OwnershipClaim → Claiming α}
    {after : List OwnershipClaim} (h : Stands key claims s)
    (hrun : ∀ claim ∈ claims, Running lib s.clock claim)
    (hf : ∀ t, t.clock = s.clock → Stands key claims t →
      Wp lib Still (f (sortClaims claims)) (Leaves s.clock key after) t) :
    Wp lib Still (loadActiveClaims lib key >>= f) (Leaves s.clock key after) s := by
  refine wp_then _ (still_load h hrun) ?_ ?_
  · rintro loaded t ⟨hloaded, hclock, hstands⟩
    obtain rfl := Except.ok.inj hloaded
    exact hf t hclock hstands
  · rintro e t ⟨he, -⟩
    cases he

/-- Claims that are written, and what follows. -/
theorem still_persist_then {α : Type} {f : Unit → Claiming α} {now : Nat} (hclock : s.clock = now)
    (hne : claims ≠ []) (hsound : Sound claims) (hnul : rejectNulBytes key "claim_key" = .ok ())
    (hrun : ∀ claim ∈ claims, Running lib now claim)
    (hf : ∀ t, t.clock = now → Stands key claims t →
      Wp lib Still (f ()) (Leaves now key claims) t) :
    Wp lib Still (persistClaims key claims now >>= f) (Leaves now key claims) s := by
  refine wp_then _ (still_persistClaims hne hsound hnul hrun) ?_ ?_
  · rintro _ t ⟨-, hlast, hstands⟩
    exact hf t (hlast.trans hclock) hstands
  · rintro e t ⟨he, -⟩
    cases he

variable {resource agent : String} {now : Nat} (hclock : s.clock = now)
  (h : Stands (claimsRedisKey resource) claims s)
  (hrun : ∀ claim ∈ claims, Running lib now claim)
  (hnul : rejectNulBytes (claimsRedisKey resource) "claim_key" = .ok ())

include hclock h hrun

theorem still_state :
    Wp lib Still (getArbitrationState lib resource)
      (Leaves now (claimsRedisKey resource) claims) s := by
  subst hclock
  refine still_load_then h hrun fun t hclock hstands => ?_
  refine still_idle hclock hstands (idle_elsewhere _ rfl) fun _ u hlast hstands => ?_
  exact still_idle hlast hstands (idle_elsewhere _ rfl) fun _ _ hlast hstands => ⟨hlast, hstands⟩

include hnul

/-- **A claim** is put behind those of the others. -/
theorem still_claim {priorityArgument expiresAt : String} {options : ClaimOptions}
    {after : List OwnershipClaim} (hcheck : checkClaim resource agent options = .ok ())
    (hexpires : computeExpiry now options.leaseTtlSeconds = .ok expiresAt)
    (hafter : recomputeClaimStatuses
      ((sortClaims claims).filter (fun claim => claim.agent ≠ agent) ++
        [newClaim lib resource agent priorityArgument options now expiresAt]) = after)
    (hne : after ≠ []) (hsound : Sound after) (hlong : ∀ claim ∈ after, Running lib now claim) :
    Wp lib Still (claimResourceWithOptions lib resource agent priorityArgument options)
      (Leaves now (claimsRedisKey resource) after) s := by
  subst hclock
  unfold claimResourceWithOptions
  rw [hcheck]
  refine still_command fun _ => ?_
  simp only [execute, hexpires]
  refine still_load_then h hrun fun t hclock _ => ?_
  rw [hafter]
  refine still_persist_then hclock hne hsound hnul hlong fun u hlast hstands => ?_
  rw [← hlast]
  refine still_elsewhere ?_ hstands
  split
  · exact only_check (.error _)
  · exact (only_claimNotices idle_elsewhere _ _ _ _ _).bind fun _ => only_done _

/-- **A renewal** takes the place of the claim. -/
theorem still_renew {leaseTtlSeconds : Option UInt64} {expiresAt : String} {old : OwnershipClaim}
    {after : List OwnershipClaim}
    (hold : (sortClaims claims).find? (fun claim => claim.agent = agent) = some old)
    (hexpires : computeExpiry now (max (leaseTtlSeconds.getD (UInt64.ofNat claimTtlSecs)) 1) =
      .ok expiresAt)
    (hafter : recomputeClaimStatuses (renewFirst
      { old with
        leaseTtlSeconds := max (leaseTtlSeconds.getD (UInt64.ofNat claimTtlSecs)) 1
        timestamp := formatTimestamp now
        expiresAt := some expiresAt } (sortClaims claims)) = after)
    (hne : after ≠ []) (hsound : Sound after) (hlong : ∀ claim ∈ after, Running lib now claim) :
    Wp lib Still (renewClaim lib resource agent leaseTtlSeconds)
      (Leaves now (claimsRedisKey resource) after) s := by
  subst hclock
  unfold renewClaim
  refine still_load_then h hrun fun t hclock _ => ?_
  refine still_command fun _ => ?_
  simp only [execute, hclock, hold, hexpires, check_ok, done_bind, hafter]
  refine still_persist_then hclock hne hsound hnul hlong fun u hlast hstands => ?_
  rw [← hlast]
  exact still_elsewhere ((only_command (idle_elsewhere _ rfl)).bind fun _ => only_done _) hstands

/-- **A resolution** gives each claim its outcome. -/
theorem still_resolve {winner reason resolvedBy : String} {after : List OwnershipClaim}
    (hafter : (sortClaims claims).map (outcome winner) = after) (hne : after ≠ [])
    (hsound : Sound after) (hlong : ∀ claim ∈ after, Running lib now claim) :
    Wp lib Still (resolveClaim lib resource winner reason resolvedBy)
      (Leaves now (claimsRedisKey resource) after) s := by
  have hresolution : ∀ c : RedisCall,
      c.writes = [claimResolutionKey (claimsRedisKey resource)] →
      claimsRedisKey resource ∉ c.writes := by
    intro c hc
    rw [hc, List.mem_singleton]
    exact (claimResolutionKey_ne _).symm
  subst hclock
  unfold resolveClaim
  refine still_load_then h hrun fun t hclock _ => ?_
  have hloaded : sortClaims claims ≠ [] := by
    intro hnil
    rw [hnil] at hafter
    exact hne hafter.symm
  rw [if_neg hloaded, hafter]
  refine still_command fun _ => ?_
  simp only [execute, hclock]
  refine still_persist_then hclock hne hsound hnul hlong fun u hlast hstands => ?_
  rw [← hlast] at hlong ⊢
  -- The resolution is written under another key, and the claims are loaded again.
  refine still_idle rfl hstands (idle_elsewhere _ rfl) fun _ v hclock hstands => ?_
  refine still_idle hclock hstands (hresolution _ rfl) fun _ v hclock hstands => ?_
  refine still_idle hclock hstands (hresolution _ rfl) fun _ v hclock hstands => ?_
  refine wp_then _ (still_state hclock hstands hlong) ?_ ?_
  · rintro state w ⟨hlast, hstands⟩
    rw [← hlast]
    refine still_elsewhere ?_ hstands
    refine (only_resolveNotices idle_elsewhere _ _ _ _ _).bind fun _ => ?_
    exact (only_command (idle_elsewhere _ rfl)).bind fun _ => only_done _
  · exact fun _ _ hleft => hleft

end Operations

/-! ### Replies -/

section Replies

seal persistClaims

variable {lib : Library}

theorem unfailing_load (key : String) : (loadActiveClaims lib key).Unfailing := by
  have hdel : (delClaims key).Unfailing := fun _ _ => trivial
  intro now all
  show Unfailing (if all = [] then pure [] else _)
  split
  · trivial
  · refine Unfailing.bind (fun _ => ?_) ?_
    · unfold refreshClaims
      split
      · refine Unfailing.bind (fun _ => ?_) hdel
        trivial
      · exact fun _ => trivial
    · unfold hdelExpired
      split
      · trivial
      · exact fun _ => trivial

theorem unfailing_state (resource : String) : (getArbitrationState lib resource).Unfailing := by
  refine Unfailing.bind (fun claims => ?_) (unfailing_load _)
  exact fun _ _ => trivial

theorem unfailing_resolveNotices (resource winner reason resolvedBy : String)
    (claims : List OwnershipClaim) :
    (resolveNotices resource winner reason resolvedBy claims).Unfailing := by
  induction claims with
  | nil => trivial
  | cons claim claims ih => exact fun _ => ih

/-- A resolution of claims that can be written is returned. -/
theorem still_resolve_ok {s : Store} {claims : List OwnershipClaim} {resource : String}
    (h : Stands (claimsRedisKey resource) claims s)
    (hrun : ∀ claim ∈ claims, Running lib s.clock claim)
    (hnul : rejectNulBytes (claimsRedisKey resource) "claim_key" = .ok ()) (hne : claims ≠ [])
    {winner : String} (reason resolvedBy : String)
    (hsound : Sound ((sortClaims claims).map (outcome winner))) :
    Wp lib Still (resolveClaim lib resource winner reason resolvedBy)
      (fun r _ => ∃ state, r = .ok state) s := by
  have hsorted : sortClaims claims ≠ [] := by
    obtain ⟨claim, hclaim⟩ := List.exists_mem_of_ne_nil claims hne
    exact List.ne_nil_of_mem (mem_sortClaims.2 hclaim)
  have hlong : ∀ claim ∈ (sortClaims claims).map (outcome winner), Running lib s.clock claim := by
    intro claim hclaim
    obtain ⟨old, hold, rfl⟩ := List.mem_map.1 hclaim
    exact hrun old (mem_sortClaims.1 hold)
  unfold resolveClaim
  refine wp_then _ (still_load h hrun) ?_ ?_
  · rintro loaded t ⟨hloaded, hclock, -⟩
    obtain rfl := Except.ok.inj hloaded
    rw [if_neg hsorted]
    refine still_command fun _ => ?_
    simp only [execute, hclock]
    refine wp_then _ (still_persistClaims (by simpa using hsorted) hsound hnul hlong) ?_ ?_
    · rintro _ u -
      refine wp_of_unfailing (serve lib) _ _ (fun _ _ _ => Option.some_ne_none _) ?_
      intro resolvedAt _ _
      show Unfailing (getArbitrationState lib resource >>= _)
      refine Unfailing.bind (fun state => ?_) (unfailing_state resource)
      refine Unfailing.bind (fun _ => ?_) (unfailing_resolveNotices _ _ _ _ _)
      exact fun _ => trivial
    · rintro e u ⟨he, -⟩
      cases he
  · rintro e t ⟨he, -⟩
    cases he

end Replies

/-! ### One moment of a run -/

def stillCalls (_ : Nat) : CallEnv := ⟨0, []⟩

section Run

variable {lib : Library} {s : Store} {key : String} {claims : List OwnershipClaim}

/-- What an operation leaves when no time passes. -/
theorem leaves_step {α : Type} {p : Claiming α} {after : List OwnershipClaim} {now : Nat}
    {op : ClaimOp} {f : α → ClaimReply} (hop : op.program lib = p >>= fun a => pure (f a))
    (h : Wp lib Still p (Leaves now key after) s) :
    ((claimBus lib).step s ⟨op, stillCalls⟩).1.clock = now ∧
      Stands key after ((claimBus lib).step s ⟨op, stillCalls⟩).1 := by
  show ((op.program lib).run (serve lib) .panicked stillCalls s).1.clock = now ∧
    Stands key after ((op.program lib).run (serve lib) .panicked stillCalls s).1
  simp only [hop, pure_eq, run_bind_done]
  exact run_of_Wp _ h (along_of_forall fun _ _ _ => rfl)

/-- The claims that stand are those that are loaded. -/
theorem loaded_stands (h : Stands key claims s)
    (hrun : ∀ claim ∈ claims, Running lib s.clock claim) :
    loaded lib key stillCalls s = sortClaims claims := by
  have hload : ((loadActiveClaims lib key).run (serve lib) .panicked stillCalls s).2 =
      .ok (sortClaims claims) :=
    (run_of_Wp _ (still_load h hrun) (along_of_forall fun _ _ _ => rfl)).1
  exact Except.ok.inj ((run_load lib key stillCalls s).symm.trans hload)

end Run

end AgentHub.Channels
