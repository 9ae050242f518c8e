import AgentHub.Channels.Equiv.Chrono
import AgentHub.Channels.Equiv.Verdict

/-!
# How long a lease can be

A lease that ends in the year 10000 or later is printed with a sign before its year and cannot be read
again, and one past the calendar panics.  A claim and a renewal are safe exactly where the lease,
counted from the time they read, ends before: `claim_safe_iff` and `renew_safe_iff`.
-/

namespace AgentHub.Channels

open AgentHub.Validation AgentHub.Outbox AgentHub.Hub Program Store

/-! ### Results whatever the replies -/

/-- The program ends as `post` says, whatever the replies to its calls. -/
def Ends {α : Type} (post : Except ClaimError α → Prop) : Claiming α → Prop
  | .done a => post (.ok a)
  | .fail e => post (.error e)
  | .call _ next => ∀ r, Ends post (next r)

section Ends

variable {α β : Type} {post : Except ClaimError α → Prop}

theorem Ends.bind {f : α → Claiming β} {after : Except ClaimError β → Prop}
    (hok : ∀ a, post (.ok a) → Ends after (f a)) (herror : ∀ e, post (.error e) → after (.error e)) :
    ∀ {p : Claiming α}, Ends post p → Ends after (p >>= f)
  | .done a, h => hok a h
  | .fail e, h => herror e h
  | .call _ _, h => fun r => Ends.bind hok herror (h r)

theorem Ends.run (lib : Library) : ∀ {p : Claiming α} {env : Nat → CallEnv} {s : Store},
    Ends post p → post (p.run (Store.serve lib) .panicked env s).2
  | .done _, _, _, h => h
  | .fail _, _, _, h => h
  | .call _ next, _, _, h => Ends.run lib (p := next _) (h _)

theorem Ends.mono {after : Except ClaimError α → Prop} (h : ∀ r, post r → after r) :
    ∀ {p : Claiming α}, Ends post p → Ends after p
  | .done _, hp => h _ hp
  | .fail _, hp => h _ hp
  | .call _ _, hp => fun r => Ends.mono h (hp r)

/-- A check ends with what it is given. -/
theorem ends_check (result : Except ClaimError α) : Ends (result = ·) (check result) := by
  cases result with
  | ok a => exact rfl
  | error e => exact rfl

theorem ends_command {c : RedisCall} {f : c.Reply → Claiming α} (h : ∀ r, Ends post (f r)) :
    Ends post (command c >>= f) := h

theorem ends_of_unfailing : ∀ {p : Claiming α}, p.Unfailing → Ends (fun r => ∃ a, r = .ok a) p
  | .done a, _ => ⟨a, rfl⟩
  | .call _ _, h => fun r => ends_of_unfailing (h r)

end Ends

/-- A value. -/
def Returned {α : Type} (r : Except ClaimError α) : Prop := ∃ a, r = .ok a

theorem Returned.ends_then {α β : Type} {p : Claiming α} {f : α → Claiming β}
    {post : Except ClaimError β → Prop} (hp : Ends Returned p) (hf : ∀ a, Ends post (f a)) :
    Ends post (p >>= f) := by
  refine Ends.bind (fun a _ => hf a) ?_ hp
  rintro e ⟨_, he⟩
  cases he

/-- No panic. -/
def Calm {α : Type} (r : Except ClaimError α) : Prop := r ≠ .error .panicked

theorem calm_ok {α : Type} (a : α) : Calm (.ok a) := nofun

theorem calm_error {α : Type} {e : ClaimError} : Calm (.error e : Except ClaimError α) ↔ e ≠ .panicked :=
  ⟨fun h he => h (congrArg _ he), fun h he => h (Except.error.inj he)⟩

theorem Calm.ends_then {α β : Type} {p : Claiming α} {f : α → Claiming β}
    {post : Except ClaimError β → Prop} (hp : Ends Calm p) (hf : ∀ a, Ends post (f a))
    (herror : ∀ e, e ≠ .panicked → post (.error e)) : Ends post (p >>= f) :=
  Ends.bind (fun a _ => hf a) (fun e he => herror e (calm_error.1 he)) hp

theorem calm_checked {α : Type} (result : Except AgentBusError α) : Ends Calm (checked result) := by
  cases result with
  | ok a => exact calm_ok a
  | error e => exact calm_error.2 nofun

theorem calm_load (lib : Library) (key : String) : Ends Calm (loadActiveClaims lib key) := by
  refine Ends.mono ?_ (ends_of_unfailing (unfailing_load key))
  rintro _ ⟨claims, rfl⟩
  exact calm_ok claims

theorem calm_writeClaims (key : String) (claims : List OwnershipClaim) :
    Ends Calm (writeClaims key claims) := by
  induction claims with
  | nil => exact calm_ok ()
  | cons claim claims ih =>
    exact Calm.ends_then (calm_checked _) (fun _ => ends_command fun _ => ih) fun _ => calm_error.2

theorem calm_persist (key : String) (claims : List OwnershipClaim) (now : Nat) :
    Ends Calm (persistClaims key claims now) := by
  refine Calm.ends_then (calm_checked _) (fun _ => ?_) fun _ => calm_error.2
  show Ends Calm (if claims = [] then delClaims key else _)
  split
  · exact ends_command fun _ => fun _ => calm_ok ()
  · refine ends_command fun _ => ?_
    exact Calm.ends_then (calm_writeClaims key claims) (fun _ => fun _ => calm_ok ())
      fun _ => calm_error.2

theorem calm_claimNotices (resource agent priorityArgument : String) (claim : OwnershipClaim)
    (others : List String) :
    Ends Calm (claimNotices resource agent priorityArgument claim others) := by
  refine Calm.ends_then ?_ (fun _ => fun _ => calm_ok ()) fun _ => calm_error.2
  unfold escalate
  split
  · exact fun _ => calm_ok ()
  · exact calm_ok ()

/-- Two programs with the same beginning go on from the same state. -/
theorem run_bind_shared (lib : Library) {α : Type} {a : α} :
    ∀ {p : Claiming α} {env : Nat → CallEnv} {s : Store},
      (p.run (Store.serve lib) .panicked env s).2 = .ok a → ∃ rest t, ∀ {β : Type} (f : α → Claiming β),
        (p >>= f).run (Store.serve lib) .panicked env s =
          (f a).run (Store.serve lib) .panicked rest t
  | .done _, env, s, h => ⟨env, s, fun f => by rw [Except.ok.inj h]; rfl⟩
  | .fail _, _, _, h => by cases h
  | .call _ next, _, _, h => run_bind_shared lib (p := next _) h

/-! ### The lease -/

/-- The lease is printed as a text that is read as a later time. -/
def Readable (lib : Library) (now : Nat) (text : String) : Prop :=
  ∃ E, lib.parseRfc3339 text = some E ∧ (now : Int) < E

theorem readable_iff {lib : Library} (hreads : ReadsDates lib.parseRfc3339) (now : Nat)
    (ttlSeconds : UInt64) :
    (∃ text, computeExpiry now ttlSeconds = .ok text ∧ Readable lib now text) ↔
      now + max ttlSeconds.toNat 1 * nanosPerSecond < yearTenThousand * nanosPerSecond := by
  have hyears : yearTenThousand ≤ calendarEnd := by decide
  have hmono := Nat.mul_le_mul_right nanosPerSecond hyears
  have hlife : 1000 * 1000 ≤ max ttlSeconds.toNat 1 * nanosPerSecond :=
    (by decide : 1000 * 1000 ≤ 1 * nanosPerSecond).trans
      (Nat.mul_le_mul_right _ (Nat.le_max_right _ _))
  unfold computeExpiry Readable
  dsimp only
  generalize max ttlSeconds.toNat 1 * nanosPerSecond = life at *
  constructor
  · rintro ⟨text, htext, E, hread, -⟩
    by_contra hfar
    split at htext
    · next hcalendar =>
      rw [← Except.ok.inj htext, hreads.micros_far _ (by omega) hcalendar] at hread
      cases hread
    · cases htext
  · intro hnear
    refine ⟨formatTimestamp (now + life), if_pos (by omega), _, hreads.micros _ hnear, ?_⟩
    omega

/-- What an operation returns that does not panic: an error, or a claim whose lease is read as a later
time. -/
def LeaseSafe (lib : Library) (now : Nat) : Except ClaimError OwnershipClaim → Prop
  | .ok claim => ∃ text ∈ claim.expiresAt, Readable lib now text
  | .error e => e ≠ .panicked

/-- A claim has the lease, or there is an error, a panic only where the lease is one. -/
def Leased (expires : Except ClaimError String) : Except ClaimError OwnershipClaim → Prop
  | .ok claim => ∃ text, expires = .ok text ∧ claim.expiresAt = some text
  | .error e => e = .panicked → expires = .error .panicked

theorem computeExpiry_error {now : Nat} {ttlSeconds : UInt64} {e : ClaimError}
    (h : computeExpiry now ttlSeconds = .error e) : e = .panicked := by
  unfold computeExpiry at h
  dsimp only at h
  split at h
  · cases h
  · exact (Except.error.inj h).symm

theorem LeaseSafe.of_leased {lib : Library} {now : Nat} {ttlSeconds : UInt64}
    {r : Except ClaimError OwnershipClaim} (h : Leased (computeExpiry now ttlSeconds) r)
    (hread : ∃ text, computeExpiry now ttlSeconds = .ok text ∧ Readable lib now text) :
    LeaseSafe lib now r := by
  obtain ⟨text, htext, hreadable⟩ := hread
  cases r with
  | ok claim =>
    obtain ⟨other, hother, hclaim⟩ := h
    obtain rfl := Except.ok.inj (htext.symm.trans hother)
    exact ⟨text, hclaim, hreadable⟩
  | error e =>
    intro he
    rw [h he] at htext
    cases htext

/-! ### Claims -/

theorem find?_recompute (claims : List OwnershipClaim) (agent : String) :
    ((recomputeClaimStatuses claims).find? fun claim => claim.agent = agent).map core =
      (claims.find? fun claim => claim.agent = agent).map core := by
  have hmap : ∀ cs : List OwnershipClaim, (cs.find? fun claim => claim.agent = agent).map core =
      (cs.map core).find? fun claim => claim.agent = agent := by
    intro cs
    rw [List.find?_map]
    rfl
  rw [hmap, hmap, map_core_recompute]

/-- The statuses change no lease. -/
theorem expiresAt_of_recompute {claims : List OwnershipClaim} {agent : String}
    {old claim : OwnershipClaim} (hold : claims.find? (fun claim => claim.agent = agent) = some old)
    (hclaim : (recomputeClaimStatuses claims).find? (fun claim => claim.agent = agent) =
      some claim) : claim.expiresAt = old.expiresAt := by
  have hfind := find?_recompute claims agent
  rw [hold, hclaim, Option.map_some, Option.map_some] at hfind
  have hcore : core claim = core old := Option.some.inj hfind
  have hexpires := congrArg OwnershipClaim.expiresAt hcore
  exact hexpires

theorem find?_newClaim {lib : Library} {resource agent priorityArgument : String}
    {options : ClaimOptions} {now : Nat} {expiresAt : String} (loaded : List OwnershipClaim) :
    (loaded.filter (fun claim => claim.agent ≠ agent) ++
      [newClaim lib resource agent priorityArgument options now expiresAt]).find?
        (fun claim => claim.agent = agent) =
      some (newClaim lib resource agent priorityArgument options now expiresAt) := by
  have hnone : (loaded.filter fun claim => claim.agent ≠ agent).find?
      (fun claim => claim.agent = agent) = none := by
    rw [List.find?_eq_none]
    intro claim hclaim
    simpa using (List.mem_filter.1 hclaim).2
  rw [List.find?_append, hnone, Option.none_or]
  exact List.find?_cons_of_pos (by simp [newClaim])

theorem find?_renewFirst {renewed : OwnershipClaim} {claims : List OwnershipClaim}
    (h : ∃ claim ∈ claims, claim.agent = renewed.agent) :
    (renewFirst renewed claims).find? (fun claim => claim.agent = renewed.agent) = some renewed := by
  induction claims with
  | nil =>
    obtain ⟨claim, hclaim, -⟩ := h
    cases hclaim
  | cons claim claims ih =>
    rw [renewFirst]
    split
    · exact List.find?_cons_of_pos (by simp)
    · next hother =>
      obtain ⟨found, hfound, hagent⟩ := h
      rcases List.mem_cons.1 hfound with rfl | hfound
      · exact absurd hagent hother
      · rw [List.find?_cons_of_neg (by simpa using hother)]
        exact ih ⟨found, hfound, hagent⟩

theorem expiresAt_renewed (renewed : OwnershipClaim) {claims : List OwnershipClaim}
    (h : ∃ claim ∈ claims, claim.agent = renewed.agent) {agent : String}
    (hagent : renewed.agent = agent) :
    (((recomputeClaimStatuses (renewFirst renewed claims)).find?
      fun claim => claim.agent = agent).getD renewed).expiresAt = renewed.expiresAt := by
  subst hagent
  cases hfind : (recomputeClaimStatuses (renewFirst renewed claims)).find?
      fun claim => claim.agent = renewed.agent with
  | none => rfl
  | some claim => exact expiresAt_of_recompute (find?_renewFirst h) hfind

section Operations

seal persistClaims

variable {lib : Library} {resource agent : String} {now : Nat}

/-- **What a claim returns.** -/
theorem leased_claim {priorityArgument : String} {options : ClaimOptions} {env : Nat → CallEnv}
    {s : Store} (hnow : ((command .now).run (Store.serve lib) .panicked env s).2 = .ok now) :
    Leased (computeExpiry now options.leaseTtlSeconds)
      ((claimResourceWithOptions lib resource agent priorityArgument options).run
        (Store.serve lib) .panicked env s).2 := by
  obtain rfl : (s.wait (env 0).delay).clock = now := Except.ok.inj hnow
  unfold claimResourceWithOptions checked
  -- the arguments are checked before the clock is read
  cases checkClaim resource agent options with
  | error e => exact fun h => ClaimError.noConfusion h
  | ok _ =>
    refine run_now_then (fun r _ =>
      Leased (computeExpiry (s.wait (env 0).delay).clock options.leaseTtlSeconds) r) ?_
    refine Ends.run lib (Ends.bind (fun expiresAt hexpires => ?_) (fun e hexpires _ => ?_)
      (ends_check _))
    · refine Calm.ends_then (calm_load lib _) (fun loaded => ?_) (fun _ he h => absurd h he)
      refine Calm.ends_then (calm_persist _ _ _) (fun _ => ?_) (fun _ he h => absurd h he)
      split
      · -- the agent's claim is always among what was written
        exact fun h => ClaimError.noConfusion h
      · next claim hclaim =>
        have hlease : claim.expiresAt = some expiresAt :=
          expiresAt_of_recompute (find?_newClaim loaded) hclaim
        refine Calm.ends_then (calm_claimNotices _ _ _ _ _) (fun _ => ⟨expiresAt, hexpires, ?_⟩)
          (fun _ he h => absurd h he)
        split
        · exact hlease
        · exact hlease
    · -- an expiry that cannot be computed is the answer
      rw [hexpires, computeExpiry_error hexpires]

/-- **What a renewal returns.** -/
theorem leased_renew {leaseTtlSeconds : Option UInt64} {env : Nat → CallEnv} {s : Store}
    (hnow : ((loadActiveClaims lib (claimsRedisKey resource) >>= fun _ => command .now).run
      (Store.serve lib) .panicked env s).2 = .ok now) :
    Leased (computeExpiry now (max (leaseTtlSeconds.getD (UInt64.ofNat claimTtlSecs)) 1))
      ((renewClaim lib resource agent leaseTtlSeconds).run (Store.serve lib) .panicked env s).2 := by
  obtain ⟨rest, t, hshared⟩ := run_bind_shared lib (run_load lib (claimsRedisKey resource) env s)
  unfold renewClaim
  rw [hshared] at hnow ⊢
  obtain rfl : (t.wait (rest 0).delay).clock = now := Except.ok.inj hnow
  generalize loaded lib (claimsRedisKey resource) env s = loaded
  refine run_now_then (fun r _ => Leased (computeExpiry (t.wait (rest 0).delay).clock _) r) ?_
  split
  · exact fun h => ClaimError.noConfusion h
  · next old hold =>
    refine Ends.run lib (Ends.bind (fun expiresAt hexpires => ?_) (fun e hexpires _ => ?_)
      (ends_check _))
    · refine Calm.ends_then (calm_persist _ _ _) (fun _ => fun _ => ⟨expiresAt, hexpires, ?_⟩)
        (fun _ he h => absurd h he)
      have hname : old.agent = agent := by simpa using List.find?_some hold
      refine expiresAt_renewed _ ?_ hname
      exact ⟨old, List.mem_of_find?_eq_some hold, rfl⟩
    · rw [hexpires, computeExpiry_error hexpires]

end Operations

/-! ### Claims that are safe -/

/-- Every claim with the lifetime that reads the time is safe. -/
def ClaimSafe (lib : Library) (now : Nat) (ttl : UInt64) : Prop :=
  ∀ (resource agent priorityArgument : String) (options : ClaimOptions) (env : Nat → CallEnv)
    (s : Store), options.leaseTtlSeconds = ttl →
    ((command .now).run (Store.serve lib) .panicked env s).2 = .ok now →
    LeaseSafe lib now ((claimResourceWithOptions lib resource agent priorityArgument options).run
      (Store.serve lib) .panicked env s).2

/-- Every renewal with the lifetime that reads the time, after its load, is safe. -/
def RenewSafe (lib : Library) (now : Nat) (leaseTtlSeconds : Option UInt64) : Prop :=
  ∀ (resource agent : String) (env : Nat → CallEnv) (s : Store),
    ((loadActiveClaims lib (claimsRedisKey resource) >>= fun _ => command .now).run
      (Store.serve lib) .panicked env s).2 = .ok now →
    LeaseSafe lib now ((renewClaim lib resource agent leaseTtlSeconds).run
      (Store.serve lib) .panicked env s).2

/-- A result that is safe had a lease that is. -/
theorem LeaseSafe.readable {lib : Library} {now : Nat} {ttlSeconds : UInt64}
    {r : Except ClaimError OwnershipClaim} (h : LeaseSafe lib now r)
    (hleased : Leased (computeExpiry now ttlSeconds) r)
    (herror : computeExpiry now ttlSeconds = .error .panicked → r = .error .panicked)
    (hok : ∀ text, computeExpiry now ttlSeconds = .ok text → ∃ claim, r = .ok claim) :
    ∃ text, computeExpiry now ttlSeconds = .ok text ∧ Readable lib now text := by
  cases r with
  | ok claim =>
    obtain ⟨text, hclaim, hreadable⟩ := h
    obtain ⟨other, hother, hsame⟩ := hleased
    obtain rfl := Option.some.inj (hclaim.symm.trans hsame)
    exact ⟨text, hother, hreadable⟩
  | error e =>
    cases hexpires : computeExpiry now ttlSeconds with
    | ok text =>
      obtain ⟨claim, hclaim⟩ := hok text hexpires
      cases hclaim
    | error e' =>
      rw [computeExpiry_error hexpires] at hexpires
      exact absurd (Except.error.inj (herror hexpires)) h

/-- Nothing refuses to write these claims. -/
theorem returned_persist {key : String} {claims : List OwnershipClaim} {now : Nat}
    (hnul : rejectNulBytes key "claim_key" = .ok ())
    (hvalid : ∀ claim ∈ claims, validateClaimNulFields claim = .ok ()) :
    Ends Returned (persistClaims key claims now) := by
  have hwrite : Ends Returned (writeClaims key claims) := by
    induction claims with
    | nil => exact ⟨(), rfl⟩
    | cons claim claims ih =>
      obtain ⟨hclaim, hclaims⟩ := List.forall_mem_cons.1 hvalid
      unfold writeClaims checked
      rw [hclaim]
      exact ends_command fun _ => ih hclaims
  unfold persistClaims checked
  rw [hnul]
  show Ends _ (if claims = [] then delClaims key else _)
  split
  · exact ends_command fun _ => fun _ => ⟨(), rfl⟩
  · refine ends_command fun _ => Returned.ends_then hwrite fun _ => ends_command fun _ => ?_
    exact ⟨(), rfl⟩

theorem returned_claimNotices (resource agent priorityArgument : String) (claim : OwnershipClaim)
    (others : List String) :
    Ends Returned (claimNotices resource agent priorityArgument claim others) := by
  have hescalate : Ends Returned (escalate resource agent priorityArgument claim others) := by
    unfold escalate
    split
    · exact fun _ => ⟨(), rfl⟩
    · exact ⟨(), rfl⟩
  exact Returned.ends_then hescalate fun _ => fun _ => ⟨(), rfl⟩

/-- Options of a lifetime. -/
def lifetimeOptions (ttl : UInt64) : ClaimOptions where
  mode := .exclusive
  leaseNamespace := none
  scopeKind := none
  scopePath := none
  repoScopes := []
  threadId := none
  leaseTtlSeconds := ttl
  scope := none

theorem valid_lifetime (lib : Library) (now later : Nat) (ttl : UInt64) :
    validateClaimNulFields
      (newClaim lib "x" "a" "first" (lifetimeOptions ttl) now (formatTimestamp later)) = .ok () := by
  have htext : ∀ t name, rejectNulBytes (formatTimestamp t) name = .ok () := fun t name =>
    rejectNulBytes_eq_ok.2 (nul_notMem_formatTimestamp t)
  have hresource : rejectNulBytes "x" "resource" = .ok () := by decide
  have hagent : rejectNulBytes "a" "agent" = .ok () := by decide
  have hargument : rejectNulBytes "first" "priority_argument" = .ok () := by decide
  simp only [validateClaimNulFields, rejectNulInFields, newClaim, lifetimeOptions, hagent,
    hargument, htext, hresource, Option.toList_none, Option.toList_some, List.map_nil,
    List.map_cons]
  rfl

theorem check_lifetime (ttl : UInt64) : checkClaim "x" "a" (lifetimeOptions ttl) = .ok () := by
  have hresource : "x" ≠ "" := by decide
  have hagent : "a" ≠ "" := by decide
  unfold checkClaim
  rw [if_neg hresource, if_neg hagent]
  exact if_neg fun h => ResourceLeaseMode.noConfusion h.1

section First

variable {lib : Library} {ttl : UInt64} {env : Nat → CallEnv} {s : Store}

theorem first_claim_error {e : ClaimError}
    (h : computeExpiry (s.wait (env 0).delay).clock (lifetimeOptions ttl).leaseTtlSeconds =
      .error e) :
    ((claimResourceWithOptions lib "x" "a" "first" (lifetimeOptions ttl)).run (Store.serve lib)
      .panicked env s).2 = .error e := by
  unfold claimResourceWithOptions checked
  rw [check_lifetime]
  refine run_now_then (fun r _ => r = .error e) ?_
  rw [h]
  rfl

seal persistClaims in
theorem first_claim_ok {text : String}
    (h : computeExpiry (s.wait (env 0).delay).clock (lifetimeOptions ttl).leaseTtlSeconds =
      .ok text) (hempty : s.hashes (claimsRedisKey "x") = none) :
    Returned ((claimResourceWithOptions lib "x" "a" "first" (lifetimeOptions ttl)).run
      (Store.serve lib) .panicked env s).2 := by
  obtain rfl := computeExpiry_eq_ok h
  unfold claimResourceWithOptions checked
  rw [check_lifetime]
  refine run_now_then (fun r _ => Returned r) ?_
  rw [h, check_ok, done_bind]
  obtain ⟨rest, t, hshared⟩ := run_bind_shared lib (run_load lib (claimsRedisKey "x")
    (fun n => env (n + 1)) (s.wait (env 0).delay))
  have hnone : loaded lib (claimsRedisKey "x") (fun n => env (n + 1)) (s.wait (env 0).delay) =
      [] := by
    unfold loaded visible
    rw [wait_hashes, wait_hashes, wait_hashes, hempty]
    exact List.mergeSort_nil
  rw [hshared, hnone]
  refine Ends.run lib (Returned.ends_then (returned_persist sample_key ?_) fun _ => ?_)
  · -- the statuses change no field that is checked
    intro claim hclaim
    rw [List.filter_nil, List.nil_append, recompute_singleton, List.mem_singleton] at hclaim
    rw [hclaim]
    exact valid_lifetime lib _ _ ttl
  · rw [List.filter_nil, List.nil_append, recompute_singleton]
    exact Returned.ends_then (returned_claimNotices _ _ _ _ _) fun _ => ⟨_, rfl⟩

end First

/-- **A claim is safe** exactly where its lease ends before the year 10000. -/
theorem claim_safe_iff {lib : Library} (hreads : ReadsDates lib.parseRfc3339) (now : Nat)
    (ttl : UInt64) :
    ClaimSafe lib now ttl ↔
      now + max ttl.toNat 1 * nanosPerSecond < yearTenThousand * nanosPerSecond := by
  rw [← readable_iff hreads]
  constructor
  · intro hsafe
    obtain ⟨s, env, hclock, hempty⟩ : ∃ (s : Store) (env : Nat → CallEnv),
        (s.wait (env 0).delay).clock = now ∧ s.hashes (claimsRedisKey "x") = none :=
      ⟨{ clock := now }, stillCalls, rfl, rfl⟩
    subst hclock
    have hnow : ((command .now).run (Store.serve lib) .panicked env s).2 =
        .ok (s.wait (env 0).delay).clock := rfl
    have hlife : ttl = (lifetimeOptions ttl).leaseTtlSeconds := rfl
    rw [hlife]
    exact (hsafe "x" "a" "first" (lifetimeOptions ttl) env s rfl hnow).readable
      (leased_claim hnow) first_claim_error fun _ h => first_claim_ok h hempty
  · rintro hread resource agent priorityArgument options env s rfl hnow
    exact LeaseSafe.of_leased (leased_claim hnow) hread

/-! ### Renewals that are safe -/

/-- A claim without a lease, which is never over. -/
def lasting (lib : Library) : OwnershipClaim :=
  { newClaim lib "x" "a" "first" (lifetimeOptions 1) 0 "" with expiresAt := none }

theorem valid_lasting (lib : Library) (now later : Nat) (ttl : UInt64) :
    validateClaimNulFields
      { lasting lib with
        leaseTtlSeconds := ttl
        timestamp := formatTimestamp now
        expiresAt := some (formatTimestamp later) } = .ok () := by
  refine valid_renewed ?_
  have htext : rejectNulBytes (formatTimestamp 0) "timestamp" = .ok () :=
    rejectNulBytes_eq_ok.2 (nul_notMem_formatTimestamp 0)
  have hresource : rejectNulBytes "x" "resource" = .ok () := by decide
  have hagent : rejectNulBytes "a" "agent" = .ok () := by decide
  have hargument : rejectNulBytes "first" "priority_argument" = .ok () := by decide
  simp only [validateClaimNulFields, rejectNulInFields, lasting, newClaim, lifetimeOptions, hagent,
    hargument, htext, hresource, Option.toList_none, List.map_nil]
  rfl

section Lasting

variable {lib : Library} {env : Nat → CallEnv} {s : Store}

/-- The claim is all there is under the key. -/
def Alone (lib : Library) (s : Store) : Prop :=
  ∃ hash : Hash, hash.rows = [entry (lasting lib)] ∧
    s.hashes (claimsRedisKey "x") = some ⟨hash, none⟩

theorem loaded_lasting (h : Alone lib s) : loaded lib (claimsRedisKey "x") env s = [lasting lib] := by
  obtain ⟨hash, hrows, hhash⟩ := h
  have hvisible : ((s.wait (env 0).delay).wait (env 1).delay).visible (claimsRedisKey "x") =
      some hash := by
    unfold visible
    rw [wait_hashes, wait_hashes, hhash]
    rfl
  have hopen : claimExpired lib (lasting lib) (s.wait (env 0).delay).clock = false := rfl
  have hactive : activeClaims lib [entry (lasting lib)] (s.wait (env 0).delay).clock =
      [lasting lib] := by
    unfold activeClaims readEntries entry
    rw [List.filterMap_cons_some (by rw [lib.readClaim_text]; rfl), List.filterMap_nil,
      List.filter_cons_of_pos (by rw [hopen]; rfl), List.filter_nil]
    rfl
  unfold loaded
  dsimp only
  rw [hvisible, Option.map_some, Option.getD_some, hrows, hactive]
  exact List.mergeSort_singleton _

theorem find?_lasting :
    [lasting lib].find? (fun claim => claim.agent = "a") = some (lasting lib) :=
  List.find?_cons_of_pos (decide_eq_true rfl)

theorem lasting_renew_error {leaseTtlSeconds : Option UInt64} {now : Nat} {e : ClaimError}
    (h : Alone lib s)
    (hnow : ((loadActiveClaims lib (claimsRedisKey "x") >>= fun _ => command .now).run
      (Store.serve lib) .panicked env s).2 = .ok now)
    (hexpires : computeExpiry now (max (leaseTtlSeconds.getD (UInt64.ofNat claimTtlSecs)) 1) =
      .error e) :
    ((renewClaim lib "x" "a" leaseTtlSeconds).run (Store.serve lib) .panicked env s).2 =
      .error e := by
  obtain ⟨rest, t, hshared⟩ := run_bind_shared lib (run_load lib (claimsRedisKey "x") env s)
  unfold renewClaim
  rw [hshared] at hnow
  rw [hshared, loaded_lasting h]
  obtain rfl : (t.wait (rest 0).delay).clock = now := Except.ok.inj hnow
  refine run_now_then (fun r _ => r = .error e) ?_
  rw [find?_lasting]
  dsimp only
  rw [hexpires]
  rfl

seal persistClaims in
theorem lasting_renew_ok {leaseTtlSeconds : Option UInt64} {now : Nat} {text : String}
    (h : Alone lib s)
    (hnow : ((loadActiveClaims lib (claimsRedisKey "x") >>= fun _ => command .now).run
      (Store.serve lib) .panicked env s).2 = .ok now)
    (hexpires : computeExpiry now (max (leaseTtlSeconds.getD (UInt64.ofNat claimTtlSecs)) 1) =
      .ok text) :
    Returned ((renewClaim lib "x" "a" leaseTtlSeconds).run (Store.serve lib) .panicked env s).2 := by
  obtain rfl := computeExpiry_eq_ok hexpires
  obtain ⟨rest, t, hshared⟩ := run_bind_shared lib (run_load lib (claimsRedisKey "x") env s)
  unfold renewClaim
  rw [hshared] at hnow
  rw [hshared, loaded_lasting h]
  obtain rfl : (t.wait (rest 0).delay).clock = now := Except.ok.inj hnow
  refine run_now_then (fun r _ => Returned r) ?_
  rw [find?_lasting]
  dsimp only
  rw [hexpires, check_ok, done_bind]
  refine Ends.run lib (Returned.ends_then (returned_persist sample_key ?_) fun _ => fun _ => ⟨_, rfl⟩)
  intro claim hclaim
  rw [renewFirst, if_pos rfl, recompute_singleton, List.mem_singleton] at hclaim
  rw [hclaim]
  exact valid_lasting lib _ _ (max (leaseTtlSeconds.getD (UInt64.ofNat claimTtlSecs)) 1)

/-- Where no time passes a load takes none. -/
theorem still_clock {α : Type} (p : Claiming α) :
    Wp lib Still p (fun _ t => t.clock = s.clock) s := by
  induction p generalizing s with
  | done a => exact rfl
  | fail e => exact rfl
  | call c next ih =>
    refine wp_call fun env henv => wp_mono _ _ _ ?_ (ih _)
    intro r t ht
    rw [ht, execute_clock, wait_clock, show env.delay = 0 from henv, Nat.add_zero]

theorem reads_clock {key : String} (henv : ∀ n, (env n).delay = 0) :
    ((loadActiveClaims lib key >>= fun _ => command .now).run (Store.serve lib) .panicked env s).2 =
      .ok s.clock := by
  have hclock : ((loadActiveClaims lib key).run (Store.serve lib) .panicked env s).1.clock =
      s.clock :=
    run_of_Wp (fun _ t => t.clock = s.clock) (still_clock _) (along_of_forall fun _ n _ => henv n)
  obtain ⟨rest, hrun, hkept⟩ := run_bind_ok (Store.serve lib) .panicked
    (f := fun _ => command .now) (run_load lib key env s)
  have hdelay : (rest 0).delay = 0 := (hkept Still (along_of_forall fun _ n _ => henv n)).1
  rw [hrun]
  show Except.ok (_ + (rest 0).delay) = _
  rw [hdelay, hclock, Nat.add_zero]

end Lasting

theorem toNat_max_one (ttl : UInt64) : max (max ttl 1).toNat 1 = max ttl.toNat 1 := by
  have hmax : max ttl 1 = if ttl ≤ 1 then 1 else ttl := rfl
  have hone : (1 : UInt64).toNat = 1 := rfl
  rw [hmax]
  split
  · next hle =>
    have hnat : ttl.toNat ≤ 1 := UInt64.le_iff_toNat_le.1 hle
    omega
  · rfl

/-- **A renewal is safe** exactly where its lease ends before the year 10000. -/
theorem renew_safe_iff {lib : Library} (hreads : ReadsDates lib.parseRfc3339) (now : Nat)
    (leaseTtlSeconds : Option UInt64) :
    RenewSafe lib now leaseTtlSeconds ↔
      now + max (leaseTtlSeconds.getD (UInt64.ofNat claimTtlSecs)).toNat 1 * nanosPerSecond <
        yearTenThousand * nanosPerSecond := by
  rw [← toNat_max_one, ← readable_iff hreads]
  constructor
  · intro hsafe
    obtain ⟨s, env, h, hnow⟩ : ∃ (s : Store) (env : Nat → CallEnv), Alone lib s ∧
        ((loadActiveClaims lib (claimsRedisKey "x") >>= fun _ => command .now).run
          (Store.serve lib) .panicked env s).2 = .ok now :=
      ⟨⟨fun _ => some ⟨Table.empty.put (entry (lasting lib)), none⟩, now⟩, stillCalls,
        ⟨_, rfl, rfl⟩, reads_clock fun _ => rfl⟩
    exact (hsafe "x" "a" env s hnow).readable (leased_renew hnow) (lasting_renew_error h hnow)
      fun _ => lasting_renew_ok h hnow
  · intro hread resource agent env s hnow
    exact LeaseSafe.of_leased (leased_renew hnow) hread

end AgentHub.Channels
