import AgentHub.Channels.Equiv.Store

/-!
# What a claim operation touches

`Only` says that a program makes no commands but those of one kind.  The operations on a resource
make the commands of `Admits`, all of them on the key of its claims and the key of their resolution,
and a listing makes those of `AdmitsLoad` on the keys it comes by.
-/

namespace AgentHub.Channels

open AgentHub.Validation AgentHub.Outbox AgentHub.Hub Program

/-! ### Keys -/

/-- The key of a resolution is that of the claims of a resource with such a name. -/
theorem claimResolutionKey_claimsRedisKey (resource : String) :
    claimResolutionKey (claimsRedisKey resource) =
      claimsPrefix ++ claimResolutionKey (claimsKey resource) := String.append_assoc

/-! ### Commands -/

/-- The keys a command may change. -/
def RedisCall.writes : RedisCall → List String
  | .hset key _ | .hdel key _ | .del key | .expire key _ | .expireClaims key _ _ => [key]
  | .now | .hgetall _ | .hget _ _ | .scan | .notify _ => []

namespace Store

variable {s : Store} {k : String}

/-- A command leaves the other keys alone. -/
theorem execute_other (lib : Library) (scanned : List String) {c : RedisCall} (h : k ∉ c.writes) :
    (s.execute lib scanned c).1.hashes k = s.hashes k := by
  cases c with
  | hset => exact hset_other (by simpa [RedisCall.writes] using h)
  | hdel => exact hdel_other (by simpa [RedisCall.writes] using h)
  | del => exact setKey_other (by simpa [RedisCall.writes] using h)
  | expire => exact expire_other (by simpa [RedisCall.writes] using h)
  | expireClaims => exact expire_other (by simpa [RedisCall.writes] using h)
  | _ => rfl

end Store

/-! ### Programs -/

/-- Only commands of one kind are made. -/
def only (P : RedisCall → Prop) : Discipline RedisCall RedisCall.Reply Unit where
  allows _ c := P c
  after _ _ _ := ()

def Only {α : Type} (P : RedisCall → Prop) (p : Claiming α) : Prop :=
  p.Obeys (only P) (fun _ _ => True) ()

/-- The commands of a load. -/
structure AdmitsLoad (P : RedisCall → Prop) (key : String) : Prop where
  idle : ∀ c : RedisCall, c.writes = [] → P c
  del : P (.del key)
  delResolution : P (.del (claimResolutionKey key))
  hdel : ∀ agents, P (.hdel key agents)
  expire : ∀ claims now, P (.expireClaims key claims now)

/-- The commands of the operations on a resource. -/
structure Admits (P : RedisCall → Prop) (key : String) : Prop extends AdmitsLoad P key where
  hset : ∀ claim, validateClaimNulFields claim = .ok () →
    P (.hset key [(claim.agent, claimText claim)])
  resolve : ∀ fields, P (.hset (claimResolutionKey key) fields)
  expireResolution : ∀ seconds, P (.expire (claimResolutionKey key) seconds)

section Only

variable {α β : Type} {P : RedisCall → Prop} {key : String}

theorem Only.bind {p : Claiming α} {f : α → Claiming β} (hp : Only P p)
    (hf : ∀ a, Only P (f a)) : Only P (p >>= f) :=
  Obeys.bind (fun _ a _ => hf a) hp

theorem Only.imp {Q : RedisCall → Prop} (h : ∀ c, P c → Q c) :
    ∀ {p : Claiming α}, Only P p → Only Q p
  | .done _, _ => trivial
  | .fail _, _ => trivial
  | .call c _, hp => ⟨h c hp.1, fun r => Only.imp h (hp.2 r)⟩

theorem only_command {c : RedisCall} (h : P c) : Only P (command c) := ⟨h, fun _ => trivial⟩

theorem only_done (a : α) : Only P (done a : Claiming α) := trivial

theorem only_check (result : Except ClaimError α) : Only P (check result : Claiming α) :=
  obeys_check fun _ _ => trivial

theorem only_checked (result : Except AgentBusError α) : Only P (checked result : Claiming α) :=
  only_check _

theorem only_invalid (message : String) : Only P (invalid message : Claiming α) := trivial

theorem only_delClaims (h : AdmitsLoad P key) : Only P (delClaims key) :=
  (only_command h.del).bind fun _ => only_command h.delResolution

/-- A claim is written once its fields have been checked. -/
theorem only_writeClaims {claims : List OwnershipClaim}
    (h : ∀ claim ∈ claims, validateClaimNulFields claim = .ok () →
      P (.hset key [(claim.agent, claimText claim)])) : Only P (writeClaims key claims) := by
  induction claims with
  | nil => exact only_done ()
  | cons claim claims ih =>
    show Only P (checked (validateClaimNulFields claim) >>= _)
    cases hvalid : validateClaimNulFields claim with
    | error e => trivial
    | ok _ =>
      refine (only_command (h claim List.mem_cons_self hvalid)).bind fun _ => ?_
      exact ih fun other hother => h other (List.mem_cons_of_mem _ hother)

theorem only_persistClaims (h : AdmitsLoad P key) {claims : List OwnershipClaim} {now : Nat}
    (hclaims : ∀ claim ∈ claims, validateClaimNulFields claim = .ok () →
      P (.hset key [(claim.agent, claimText claim)])) :
    Only P (persistClaims key claims now) := by
  refine (only_check _).bind fun _ => ?_
  split
  · exact only_delClaims h
  · refine (only_command h.del).bind fun _ => ?_
    exact (only_writeClaims hclaims).bind fun _ => only_command (h.expire _ _)

section Operations

variable (lib : Library)

-- the check of a key is not to be computed
seal persistClaims

theorem only_loadActiveClaims (h : AdmitsLoad P key) : Only P (loadActiveClaims lib key) := by
  refine (only_command (h.idle .now rfl)).bind fun now => ?_
  refine (only_command (h.idle (.hgetall key) rfl)).bind fun all => ?_
  split
  · exact only_done _
  · have hexpired : Only P (hdelExpired key (expiredAgents lib all now)) := by
      unfold hdelExpired
      split
      · exact only_done _
      · exact only_command (h.hdel _)
    refine hexpired.bind fun _ => ?_
    unfold refreshClaims
    split
    · exact (only_delClaims h).bind fun _ => only_done _
    · exact (only_command (h.expire _ now)).bind fun _ => only_done _

theorem only_loadAll (wanted : OwnershipClaim → Bool) {keys : List String}
    (h : ∀ key ∈ keys, AdmitsLoad P key) : Only P (loadAll lib wanted keys) := by
  induction keys with
  | nil => exact only_done _
  | cons key keys ih =>
    have hrest := ih fun k hk => h k (List.mem_cons_of_mem _ hk)
    refine (only_loadActiveClaims lib (h key List.mem_cons_self)).bind fun claims => ?_
    exact hrest.bind fun rest => only_done _

theorem only_getArbitrationState {resource : String} (h : AdmitsLoad P (claimsRedisKey resource)) :
    Only P (getArbitrationState lib resource) := by
  refine (only_loadActiveClaims lib h).bind fun claims => ?_
  refine (only_command (h.idle _ rfl)).bind fun winner => ?_
  exact (only_command (h.idle _ rfl)).bind fun reason => only_done _

theorem only_claimNotices (h : ∀ c : RedisCall, c.writes = [] → P c)
    (resource agent priorityArgument : String) (claim : OwnershipClaim) (others : List String) :
    Only P (claimNotices resource agent priorityArgument claim others) := by
  have hescalate : Only P (escalate resource agent priorityArgument claim others) := by
    unfold escalate
    split
    · exact only_command (h _ rfl)
    · exact only_done _
  exact hescalate.bind fun _ => only_command (h _ rfl)

theorem only_resolveNotices (h : ∀ c : RedisCall, c.writes = [] → P c)
    (resource winner reason resolvedBy : String) (claims : List OwnershipClaim) :
    Only P (resolveNotices resource winner reason resolvedBy claims) := by
  induction claims with
  | nil => exact only_done ()
  | cons claim claims ih => exact (only_command (h _ rfl)).bind fun _ => ih

/-- The resource an operation is on. -/
def ClaimOp.resource? : ClaimOp → Option String
  | .claim resource _ _ _ | .renew resource _ _ | .release resource _ | .resolve resource _ _ _
  | .state resource => some resource
  | .list _ _ => none

section Resource

variable {resource : String} (h : Admits P (claimsRedisKey resource))

include h

theorem only_claimResource (agent priorityArgument : String) (options : ClaimOptions) :
    Only P (claimResourceWithOptions lib resource agent priorityArgument options) := by
  unfold claimResourceWithOptions
  refine (only_checked _).bind fun _ => ?_
  refine (only_command (h.idle _ rfl)).bind fun now => ?_
  refine (only_check _).bind fun expiresAt => ?_
  refine (only_loadActiveClaims lib h.toAdmitsLoad).bind fun loaded => ?_
  refine (only_persistClaims h.toAdmitsLoad fun claim _ => h.hset claim).bind fun _ => ?_
  split
  · exact only_check (.error _)
  · exact (only_claimNotices h.idle _ _ _ _ _).bind fun _ => only_done _

theorem only_renewClaim (agent : String) (leaseTtlSeconds : Option UInt64) :
    Only P (renewClaim lib resource agent leaseTtlSeconds) := by
  unfold renewClaim
  refine (only_loadActiveClaims lib h.toAdmitsLoad).bind fun loaded => ?_
  refine (only_command (h.idle _ rfl)).bind fun now => ?_
  split
  · exact only_invalid _
  · refine (only_check _).bind fun expiresAt => ?_
    refine (only_persistClaims h.toAdmitsLoad fun claim _ => h.hset claim).bind fun _ => ?_
    exact (only_command (h.idle _ rfl)).bind fun _ => only_done _

theorem only_releaseClaim (agent : String) : Only P (releaseClaim lib resource agent) := by
  unfold releaseClaim
  refine (only_loadActiveClaims lib h.toAdmitsLoad).bind fun loaded => ?_
  dsimp only
  split
  · exact only_invalid _
  · refine (only_command (h.idle _ rfl)).bind fun now => ?_
    refine (only_persistClaims h.toAdmitsLoad fun claim _ => h.hset claim).bind fun _ => ?_
    refine (only_command (h.idle _ rfl)).bind fun _ => ?_
    exact only_getArbitrationState lib h.toAdmitsLoad

theorem only_resolveClaim (winner reason resolvedBy : String) :
    Only P (resolveClaim lib resource winner reason resolvedBy) := by
  unfold resolveClaim
  refine (only_loadActiveClaims lib h.toAdmitsLoad).bind fun loaded => ?_
  split
  · exact only_invalid _
  · refine (only_command (h.idle _ rfl)).bind fun now => ?_
    refine (only_persistClaims h.toAdmitsLoad fun claim _ => h.hset claim).bind fun _ => ?_
    refine (only_command (h.idle _ rfl)).bind fun resolvedAt => ?_
    refine (only_command (h.resolve _)).bind fun _ => ?_
    refine (only_command (h.expireResolution _)).bind fun _ => ?_
    refine (only_getArbitrationState lib h.toAdmitsLoad).bind fun state => ?_
    refine (only_resolveNotices h.idle _ _ _ _ _).bind fun _ => ?_
    exact (only_command (h.idle _ rfl)).bind fun _ => only_done _

end Resource

/-- **The commands of an operation on a resource.** -/
theorem only_program {op : ClaimOp} {resource : String} (hop : op.resource? = some resource)
    (h : Admits P (claimsRedisKey resource)) : Only P (op.program lib) := by
  cases op with
  | claim =>
    obtain rfl := Option.some.inj hop
    exact (only_claimResource lib h _ _ _).bind fun _ => only_done _
  | renew =>
    obtain rfl := Option.some.inj hop
    exact (only_renewClaim lib h _ _).bind fun _ => only_done _
  | release =>
    obtain rfl := Option.some.inj hop
    exact (only_releaseClaim lib h _).bind fun _ => only_done _
  | resolve =>
    obtain rfl := Option.some.inj hop
    exact (only_resolveClaim lib h _ _ _).bind fun _ => only_done _
  | state =>
    obtain rfl := Option.some.inj hop
    exact (only_getArbitrationState lib h.toAdmitsLoad).bind fun _ => only_done _
  | list => cases hop

/-- **The commands of a listing.** -/
theorem only_list (resourceFilter : Option String) (statusFilter : Option ClaimStatus)
    (h : ∀ key, AdmitsLoad P key) :
    Only P ((ClaimOp.list resourceFilter statusFilter).program lib) := by
  refine Only.bind ?_ fun _ => only_done _
  refine (only_command ((h "").idle .scan rfl)).bind fun keys => ?_
  exact (only_loadAll lib _ fun key _ => h key).bind fun _ => only_done _

end Operations

/-! ### What the commands keep -/

section Keep

variable {lib : Library} {I : Store → Prop} {p : Claiming α} {s : Store}
  (hkeep : ∀ c d scanned t, P c → I t → I ((t.wait d).execute lib scanned c).1)

include hkeep

/-- What every command keeps is kept by the program, and holds at each of its calls. -/
theorem Only.run (h : Only P p) (env : Nat → CallEnv) (hI : I s) :
    I (p.run (Store.serve lib) .panicked env s).1 := by
  obtain ⟨-, hlast, -⟩ := run_of_obeys (Store.serve lib) ClaimError.panicked
    (I := fun _ t => I t) (fun _ c env t ht hP => hkeep c env.delay env.scanned t hP ht) h env hI
  exact hlast

theorem Only.wp {C : RedisCall → CallEnv → Store → Prop} (h : Only P p) (hI : I s) :
    Wp lib C p (fun _ t => I t) s := by
  refine wp_mono _ _ _ ?_ (wp_of_obeys (Store.serve lib) ClaimError.panicked C
    (I := fun _ t => I t) (fun _ c env t ht hP => hkeep c env.delay env.scanned t hP ht) h hI)
  rintro r t ⟨-, ht⟩
  exact ht

theorem Only.along (h : Only P p) (env : Nat → CallEnv) (hI : I s) :
    p.Along (Store.serve lib) (fun _ _ t => I t) env s := by
  have halong : p.Along (Store.serve lib) (fun _ _ t => ∃ _ : Unit, I t) env s :=
    along_of_obeys (Store.serve lib) (I := fun _ t => I t)
      (fun _ c env t ht hP => hkeep c env.delay env.scanned t hP ht) h hI
  refine Along.mono (Store.serve lib) ?_ halong
  rintro c i t ⟨-, ht⟩
  exact ht

end Keep

/-! ### Other keys -/

/-- Only some keys may be changed. -/
def within (keys : List String) (c : RedisCall) : Prop := ∀ key ∈ c.writes, key ∈ keys

theorem admits_within (key : String) : Admits (within [key, claimResolutionKey key]) key where
  idle c hc := by simp [within, hc]
  del := by simp [within, RedisCall.writes]
  delResolution := by simp [within, RedisCall.writes]
  hdel _ := by simp [within, RedisCall.writes]
  expire _ _ := by simp [within, RedisCall.writes]
  hset _ _ := by simp [within, RedisCall.writes]
  resolve _ := by simp [within, RedisCall.writes]
  expireResolution _ := by simp [within, RedisCall.writes]

/-- A program that stays within some keys leaves the others alone. -/
theorem run_within (lib : Library) {keys : List String} {p : Claiming α} (h : Only (within keys) p)
    (env : Nat → CallEnv) (s : Store) {k : String} (hk : k ∉ keys) :
    (p.run (Store.serve lib) .panicked env s).1.hashes k = s.hashes k := by
  refine Only.run (I := fun t => t.hashes k = s.hashes k) ?_ h env rfl
  intro c d scanned t hwithin ht
  exact (Store.execute_other lib scanned fun hmem => hk (hwithin k hmem)).trans ht

end Only

end AgentHub.Channels
