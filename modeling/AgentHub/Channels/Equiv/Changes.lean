import AgentHub.Channels.Equiv.Entries

/-!
# What an operation writes

`Changes` lists the claims each operation writes, computed from those it loads.  After an operation
every field under the key of the resource is one of the claims that stood there, or every one is
among those written (`entries_perform`): the invariants of the claims are derived from this.
-/

namespace AgentHub.Channels

open AgentHub.Validation AgentHub.Outbox AgentHub.Hub Program Store

/-! ### Changes -/

/-- The claims that an operation writes, if it writes any. -/
inductive Changes (lib : Library) (key : String) (s : Store) :
    ClaimInput → List OwnershipClaim → Prop
  | claim {resource agent priorityArgument : String} {options : ClaimOptions}
      {env : Nat → CallEnv} {expiresAt : String}
      (hcheck : checkClaim resource agent options = .ok ())
      (hexpires : computeExpiry (s.clock + (env 0).delay) options.leaseTtlSeconds =
        .ok expiresAt) :
      Changes lib key s ⟨.claim resource agent priorityArgument options, env⟩
        (recomputeClaimStatuses
          ((loaded lib key (fun n => env (n + 1)) (s.wait (env 0).delay)).filter
              (fun claim => claim.agent ≠ agent) ++
            [newClaim lib resource agent priorityArgument options (s.clock + (env 0).delay)
              expiresAt]))
  | renew {resource agent : String} {leaseTtlSeconds : Option UInt64} {env : Nat → CallEnv}
      {old : OwnershipClaim} {now : Nat} {expiresAt : String} (hnow : s.clock ≤ now)
      (hold : (loaded lib key env s).find? (fun claim => claim.agent = agent) = some old)
      (hexpires : computeExpiry now (max (leaseTtlSeconds.getD (UInt64.ofNat claimTtlSecs)) 1) =
        .ok expiresAt) :
      Changes lib key s ⟨.renew resource agent leaseTtlSeconds, env⟩
        (recomputeClaimStatuses (renewFirst
          { old with
            leaseTtlSeconds := max (leaseTtlSeconds.getD (UInt64.ofNat claimTtlSecs)) 1
            timestamp := formatTimestamp now
            expiresAt := some expiresAt } (loaded lib key env s)))
  | release {resource agent : String} {env : Nat → CallEnv}
      (hsome : ∃ claim ∈ loaded lib key env s, claim.agent = agent) :
      Changes lib key s ⟨.release resource agent, env⟩
        (recomputeClaimStatuses
          ((loaded lib key env s).filter fun claim => claim.agent ≠ agent))
  | resolve {resource winner reason resolvedBy : String} {env : Nat → CallEnv}
      (hne : loaded lib key env s ≠ []) :
      Changes lib key s ⟨.resolve resource winner reason resolvedBy, env⟩
        ((loaded lib key env s).map (outcome winner))

/-- The key stands as it did, or as an operation has written it. -/
def Rewritten (lib : Library) (key : String) (Q : OwnershipClaim → Prop) (s : Store)
    (i : ClaimInput) (t : Store) : Prop :=
  Entries Q key t ∨
    ∃ claims, Changes lib key s i claims ∧ rejectNulBytes key "claim_key" = .ok () ∧
      Entries (· ∈ claims) key t

/-! ### Commands -/

/-- A command that writes no field under the key. -/
def Quiet (key : String) (c : RedisCall) : Prop := ∀ fields, c ≠ .hset key fields

theorem admitsLoad_quiet (key k : String) : AdmitsLoad (Quiet key) k where
  idle c hc := by
    rintro fields rfl
    cases hc
  del _ := RedisCall.noConfusion
  delResolution _ := RedisCall.noConfusion
  hdel _ _ := RedisCall.noConfusion
  expire _ _ _ := RedisCall.noConfusion

section Rules

seal persistClaims

variable {lib : Library} {C : RedisCall → CallEnv → Store → Prop} {key : String} {s : Store}
  {Q : OwnershipClaim → Prop}

theorem Quiet.enters {c : RedisCall} (h : Quiet key c) : Enters Q key c := by
  cases c with
  | hset k fields =>
    rintro rfl
    exact absurd rfl (h fields)
  | _ => trivial

theorem quiet_resolution {fields : List (String × String)} :
    Quiet key (.hset (claimResolutionKey key) fields) := by
  intro other heq
  injection heq with hkey _
  have hlength := congrArg String.length hkey
  simp [claimResolutionKey] at hlength

/-- Only such commands come. -/
theorem wp_quiet {α : Type} {p : Claiming α} {i : ClaimInput} {t : Store}
    (hp : Only (Quiet key) p) (h : Rewritten lib key Q s i t) :
    Wp lib C p (fun _ u => Rewritten lib key Q s i u) t := by
  have henters : ∀ R : OwnershipClaim → Prop, Only (Enters R key) p :=
    fun R => hp.imp fun c hc => hc.enters
  rcases h with hsame | ⟨claims, hchanges, hnul, hwritten⟩
  · exact wp_mono (serve lib) ClaimError.panicked C (fun _ _ h => .inl h)
      (wp_entries (henters Q) hsame)
  · exact wp_mono (serve lib) ClaimError.panicked C (fun _ _ h => .inr ⟨claims, hchanges, hnul, h⟩)
      (wp_entries (henters _) hwritten)

/-- The claims are written, all of them or the first ones. -/
theorem wp_persist_rewritten {i : ClaimInput} {t : Store} {claims : List OwnershipClaim} {now : Nat}
    (h : Entries Q key t) (hchanges : Changes lib key s i claims) :
    Wp lib C (persistClaims key claims now) (fun _ u => Rewritten lib key Q s i u) t := by
  cases hnul : rejectNulBytes key "claim_key" with
  -- the name of the key is refused and nothing is sent
  | error e =>
    unfold persistClaims checked
    rw [hnul]
    exact .inl h
  | ok u =>
    have hwritten : ∀ u : Store, Entries (· ∈ claims) key u → Rewritten lib key Q s i u :=
      fun u hu => .inr ⟨claims, hchanges, hnul, hu⟩
    unfold persistClaims checked
    rw [hnul]
    show Wp lib C (if claims = [] then delClaims key else _) _ t
    have hdeleted : ∀ d, Entries (· ∈ claims) key ((t.wait d).del key) :=
      fun d => entries_del _ key _
    -- without claims the hash is deleted, otherwise it is written anew
    split
    · refine wp_delClaims fun d e => hwritten _ ?_
      have hresolution : Enters (· ∈ claims) key (.del (claimResolutionKey key)) := trivial
      show Entries (· ∈ claims) key (((((t.wait d).del key).wait e).execute lib []
        (.del (claimResolutionKey key))).1)
      exact entries_execute hresolution (hdeleted d)
    · refine wp_command fun env _ => ?_
      have hwrites : Only (Enters (· ∈ claims) key) (do
          writeClaims key claims
          command (.expireClaims key claims now)) := by
        refine Only.bind (only_writeClaims fun claim hclaim hvalid _ f hf => ?_) fun _ =>
          only_command trivial
        exact ⟨claim, hvalid, hclaim, List.mem_singleton.1 hf⟩
      exact wp_mono (serve lib) ClaimError.panicked C (fun _ u hu => hwritten u hu)
        (wp_entries hwrites (hdeleted env.delay))

/-- The claims are written, and nothing under the key after that. -/
theorem wp_persist_quiet {α : Type} {f : Unit → Claiming α} {i : ClaimInput} {t : Store}
    {claims : List OwnershipClaim} {now : Nat} (h : Entries Q key t)
    (hchanges : Changes lib key s i claims) (hf : Only (Quiet key) (f ())) :
    Wp lib C (persistClaims key claims now >>= f) (fun _ u => Rewritten lib key Q s i u) t :=
  wp_then _ (wp_persist_rewritten h hchanges) (fun _ _ hu => wp_quiet hf hu) fun _ _ hu => hu

end Rules

/-! ### Operations -/

section Operations

seal persistClaims

variable {lib : Library} {Q : OwnershipClaim → Prop} {s : Store} {resource : String}
  {env : Nat → CallEnv} (h : Entries Q (claimsRedisKey resource) s)

include h

theorem entries_claim (agent priorityArgument : String) (options : ClaimOptions) :
    Rewritten lib (claimsRedisKey resource) Q s
      ⟨.claim resource agent priorityArgument options, env⟩
      (s.perform lib ⟨.claim resource agent priorityArgument options, env⟩).1 := by
  simp only [Store.perform, ClaimOp.program, pure_eq, run_bind_done, claimResourceWithOptions,
    checked]
  cases hcheck : checkClaim resource agent options with
  | error e => exact .inl h
  | ok u =>
    -- The time of the claim is taken before the load.
    have hwaited : Entries Q (claimsRedisKey resource) (s.wait (env 0).delay) := h
    simp only [Except.mapError, check_ok, done_bind]
    refine run_now_then (fun _ t => Rewritten lib (claimsRedisKey resource) Q s
      ⟨.claim resource agent priorityArgument options, env⟩ t) ?_
    cases hexpires : computeExpiry (s.wait (env 0).delay).clock options.leaseTtlSeconds with
    | error e => exact .inl hwaited
    | ok expiresAt =>
      refine run_load_then (C := fun _ _ _ => True)
        (fun _ t => Rewritten lib (claimsRedisKey resource) Q s
          ⟨.claim resource agent priorityArgument options, env⟩ t) _
        (wp_entries (only_loadActiveClaims lib (admitsLoad_enters _ _ _)) hwaited) ?_
        (along_of_forall fun _ _ _ => trivial)
      intro t hclock ht
      have hidle := (admitsLoad_quiet (claimsRedisKey resource) "").idle
      refine wp_persist_quiet ht (.claim hcheck hexpires) ?_
      split
      · exact only_check (.error _)
      · exact (only_claimNotices hidle _ _ _ _ _).bind fun _ => only_done _

theorem entries_renew (agent : String) (leaseTtlSeconds : Option UInt64) :
    Rewritten lib (claimsRedisKey resource) Q s ⟨.renew resource agent leaseTtlSeconds, env⟩
      (s.perform lib ⟨.renew resource agent leaseTtlSeconds, env⟩).1 := by
  simp only [Store.perform, ClaimOp.program, pure_eq, run_bind_done, renewClaim]
  refine run_load_then (C := fun _ _ _ => True)
    (fun _ t => Rewritten lib (claimsRedisKey resource) Q s
      ⟨.renew resource agent leaseTtlSeconds, env⟩ t) _
    (wp_entries (only_loadActiveClaims lib (admitsLoad_enters _ _ _)) h) ?_
    (along_of_forall fun _ _ _ => trivial)
  intro t hclock ht
  refine wp_now fun d => ?_
  have hwaited : Entries Q (claimsRedisKey resource) (t.wait d) := ht
  split
  · exact .inl hwaited
  · rename_i old hold
    cases hexpires : computeExpiry (t.wait d).clock
        (max (leaseTtlSeconds.getD (UInt64.ofNat claimTtlSecs)) 1) with
    | error e => exact .inl hwaited
    | ok expiresAt =>
      have hnow : s.clock ≤ (t.wait d).clock := hclock.trans (Nat.le_add_right _ _)
      refine wp_persist_quiet hwaited (.renew hnow hold hexpires) ?_
      exact (only_command ((admitsLoad_quiet _ "").idle _ rfl)).bind fun _ => only_done _

theorem entries_release (agent : String) :
    Rewritten lib (claimsRedisKey resource) Q s ⟨.release resource agent, env⟩
      (s.perform lib ⟨.release resource agent, env⟩).1 := by
  simp only [Store.perform, ClaimOp.program, pure_eq, run_bind_done, releaseClaim]
  refine run_load_then (C := fun _ _ _ => True)
    (fun _ t => Rewritten lib (claimsRedisKey resource) Q s ⟨.release resource agent, env⟩ t) _
    (wp_entries (only_loadActiveClaims lib (admitsLoad_enters _ _ _)) h) ?_
    (along_of_forall fun _ _ _ => trivial)
  intro t hclock ht
  split
  · exact .inl ht
  · rename_i hlength
    have hsome : ∃ claim ∈ loaded lib (claimsRedisKey resource) env s, claim.agent = agent := by
      by_contra hnone
      push Not at hnone
      exact hlength (by rw [List.filter_eq_self.2 fun claim hclaim => by simpa using hnone claim hclaim])
    refine wp_now fun d => ?_
    have hwaited : Entries Q (claimsRedisKey resource) (t.wait d) := ht
    refine wp_persist_quiet hwaited (.release hsome) ?_
    refine (only_command ((admitsLoad_quiet _ "").idle _ rfl)).bind fun _ => ?_
    exact only_getArbitrationState lib (admitsLoad_quiet _ _)

theorem entries_resolve (winner reason resolvedBy : String) :
    Rewritten lib (claimsRedisKey resource) Q s
      ⟨.resolve resource winner reason resolvedBy, env⟩
      (s.perform lib ⟨.resolve resource winner reason resolvedBy, env⟩).1 := by
  simp only [Store.perform, ClaimOp.program, pure_eq, run_bind_done, resolveClaim]
  refine run_load_then (C := fun _ _ _ => True)
    (fun _ t => Rewritten lib (claimsRedisKey resource) Q s
      ⟨.resolve resource winner reason resolvedBy, env⟩ t) _
    (wp_entries (only_loadActiveClaims lib (admitsLoad_enters _ _ _)) h) ?_
    (along_of_forall fun _ _ _ => trivial)
  intro t hclock ht
  split
  · exact .inl ht
  · rename_i hne
    refine wp_now fun d => ?_
    have hwaited : Entries Q (claimsRedisKey resource) (t.wait d) := ht
    have hidle := (admitsLoad_quiet (claimsRedisKey resource) "").idle
    refine wp_persist_quiet hwaited (.resolve hne) ?_
    refine (only_command (hidle _ rfl)).bind fun resolvedAt => ?_
    refine (only_command quiet_resolution).bind fun _ => ?_
    refine (only_command fun _ => RedisCall.noConfusion).bind fun _ => ?_
    refine (only_getArbitrationState lib (admitsLoad_quiet _ _)).bind fun state => ?_
    refine (only_resolveNotices hidle _ _ _ _ _).bind fun _ => ?_
    exact (only_command (hidle _ rfl)).bind fun _ => only_done _

/-- **What an operation on a resource leaves of its claims.** -/
theorem entries_perform {i : ClaimInput} (hop : ∀ other ∈ i.op.resource?, other = resource)
    (h : Entries Q (claimsRedisKey resource) s) :
    Rewritten lib (claimsRedisKey resource) Q s i (s.perform lib i).1 := by
  obtain ⟨op, env⟩ := i
  cases op with
  | claim other agent priorityArgument options =>
    obtain rfl : other = resource := hop other rfl
    exact entries_claim h agent priorityArgument options
  | renew other agent leaseTtlSeconds =>
    obtain rfl : other = resource := hop other rfl
    exact entries_renew h agent leaseTtlSeconds
  | release other agent =>
    obtain rfl : other = resource := hop other rfl
    exact entries_release h agent
  | resolve other winner reason resolvedBy =>
    obtain rfl : other = resource := hop other rfl
    exact entries_resolve h winner reason resolvedBy
  | state other =>
    refine .inl (entries_run (Only.bind ?_ fun _ => only_done _) env h)
    exact only_getArbitrationState lib (admitsLoad_enters _ _ _)
  | list resourceFilter statusFilter =>
    exact .inl (entries_run (only_list lib _ _ fun k => admitsLoad_enters _ _ k) env h)

end Operations

end AgentHub.Channels
