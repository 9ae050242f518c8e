import AgentHub.Channels.Equiv.Listing
import AgentHub.Channels.Equiv.Reader
import AgentHub.Channels.Equiv.Written

/-!
# Claims of different resources

The claims and the resolution of a resource are under two keys.  An operation on another resource
leaves both alone exactly where neither name is the other with `:resolution` behind it; a listing
takes a resolution it comes by for claims, finds none, and deletes it.
-/

namespace AgentHub.Channels

open AgentHub.Validation AgentHub.Outbox AgentHub.Hub Program Store

/-! ### Keys -/

/-- The keys of the claims and of the resolution of a resource. -/
def resourceKeys (resource : String) : List String :=
  [claimsRedisKey resource, claimResolutionKey (claimsRedisKey resource)]

/-- Neither name is the other with `:resolution` behind it. -/
def Separate (left right : String) : Prop :=
  claimsKey right ≠ claimResolutionKey (claimsKey left) ∧
    claimsKey left ≠ claimResolutionKey (claimsKey right)

variable {left right : String}

/-- **The keys of two resources.** -/
theorem disjoint_resourceKeys (hne : claimsKey left ≠ claimsKey right) :
    (∀ k ∈ resourceKeys right, k ∉ resourceKeys left) ↔ Separate left right := by
  have hresolution : claimResolutionKey (claimsKey right) ≠ claimResolutionKey (claimsKey left) :=
    fun heq => hne ((String.append_left_inj _).1 heq).symm
  simp only [resourceKeys, List.mem_cons, List.not_mem_nil, or_false, not_or, forall_eq_or_imp,
    forall_eq, claimResolutionKey_claimsRedisKey]
  simp only [claimsRedisKey, String.append_right_inj, Separate]
  constructor
  · rintro ⟨⟨-, hright⟩, hleft, -⟩
    exact ⟨hright, fun heq => hleft heq.symm⟩
  · rintro ⟨hright, hleft⟩
    exact ⟨⟨fun heq => hne heq.symm, hright⟩, fun heq => hleft heq.symm, hresolution⟩

/-! ### Operations on another resource -/

section Operations

seal persistClaims

variable {lib : Library}

/-- **An operation changes no key of a separate resource.** -/
theorem perform_frame (hne : claimsKey left ≠ claimsKey right) (hseparate : Separate left right)
    {op : ClaimOp} (hop : op.resource? = some left) (env : Nat → CallEnv) (s : Store) {k : String}
    (hk : k ∈ resourceKeys right) : (s.perform lib ⟨op, env⟩).1.hashes k = s.hashes k :=
  run_within lib (only_program lib hop (admits_within _)) env s
    ((disjoint_resourceKeys hne).2 hseparate k hk)

/-- A load of a key without a hash. -/
theorem wp_load_none {C : RedisCall → CallEnv → Store → Prop} {s : Store} {key : String}
    (h : s.hashes key = none) :
    Wp lib C (loadActiveClaims lib key) (fun r t => r = .ok [] ∧ t.hashes = s.hashes) s := by
  refine wp_loadActiveClaims (fun t _ hhashes _ => ⟨rfl, hhashes⟩) ?_
  intro t env hash _ hhashes _ hvisible _
  have hgone : (t.wait env.delay).visible key = none :=
    visible_none_of_hashes ((congrFun hhashes key).trans h)
  rw [hgone] at hvisible
  cases hvisible

/-- The hash of one claim. -/
def soleHash (claim : OwnershipClaim) : Hash := Table.empty.put (claim.agent, claimText claim)

theorem soleHash_rows (claim : OwnershipClaim) :
    (soleHash claim).rows = [(claim.agent, claimText claim)] := rfl

/-- The claims of a resource and its resolution, each with the hash of one claim. -/
def claimedAndResolved (resource agent : String) : Store where
  hashes key :=
    if key ∈ resourceKeys resource then
      some ⟨soleHash (endlessClaim resource agent), none⟩
    else none

/-- A load of the hash of one claim without an end. -/
theorem wp_load_sole {C : RedisCall → CallEnv → Store → Prop} {s : Store}
    {key resource agent : String}
    (h : s.hashes key = some ⟨soleHash (endlessClaim resource agent), none⟩) :
    Wp lib C (loadActiveClaims lib key) (fun r _ => r = .ok [endlessClaim resource agent]) s := by
  have hread : lib.readClaim (claimText (endlessClaim resource agent)) =
      some (endlessClaim resource agent) := lib.readClaim_text _
  have hopen : ∀ now, claimExpired lib (endlessClaim resource agent) now = false := fun _ => rfl
  -- the hash has one claim without an end
  refine wp_loadActiveClaims ?_ ?_
  · intro t _ hhashes hempty
    have hvisible : t.visible key = some (soleHash (endlessClaim resource agent)) :=
      visible_eq_some.2 ⟨_, (congrFun hhashes key).trans h, rfl, by rintro _ ⟨⟩⟩
    cases hempty _ hvisible
  · intro t env hash _ hhashes _ hvisible _
    obtain ⟨slot, hslot, rfl, -⟩ := visible_eq_some.1 hvisible
    obtain rfl := Option.some.inj (((congrFun hhashes key).trans h).symm.trans hslot)
    -- nothing has expired, and the one claim is active
    have hexpired :
        expiredAgents lib (soleHash (endlessClaim resource agent)).rows t.clock = [] := by
      simp [expiredAgents, readEntries, soleHash_rows, hread, hopen]
    have hactive : activeClaims lib (soleHash (endlessClaim resource agent)).rows t.clock =
        [endlessClaim resource agent] := by
      simp [activeClaims, readEntries, soleHash_rows, hread, hopen]
    rw [hexpired, hactive]
    refine wp_then (fun r _ => r = .ok ())
      (wp_hdelExpired (fun _ => rfl) fun hne => absurd rfl hne) ?_ fun _ _ he => by cases he
    intro _ u _
    refine wp_refreshClaims (fun hnone => by cases hnone) fun _ env₂ _ => ?_
    simp [sortClaims]

/-- The sole holder releases a resource: its claims and its resolution are gone. -/
theorem wp_release_sole {C : RedisCall → CallEnv → Store → Prop} {resource agent : String}
    (hnul : rejectNulBytes (claimsRedisKey resource) "claim_key" = .ok ()) {s : Store}
    (h : s.hashes (claimsRedisKey resource) =
      some ⟨soleHash (endlessClaim resource agent), none⟩) :
    Wp lib C (releaseClaim lib resource agent) (fun _ t => ∀ k ∈ resourceKeys resource,
      t.hashes k = none) s := by
  -- both keys of the resource are deleted
  have hgone : ∀ u : Store, ∀ d e, ∀ k ∈ resourceKeys resource,
      ((((u.wait d).del (claimsRedisKey resource)).wait e).del
        (claimResolutionKey (claimsRedisKey resource))).hashes k = none := by
    intro u d e k hk
    by_cases hlast : k = claimResolutionKey (claimsRedisKey resource)
    · subst hlast
      exact setKey_self
    · obtain rfl : k = claimsRedisKey resource := by
        simpa [resourceKeys, hlast] using hk
      exact (setKey_other hlast).trans setKey_self
  unfold releaseClaim
  refine wp_then _ (wp_load_sole h) ?_ fun _ _ he => by cases he
  rintro _ t ⟨⟩
  -- the claim was the only one
  have hothers : ([endlessClaim resource agent].filter fun claim => claim.agent ≠ agent) = [] := by
    simp [endlessClaim]
  simp only [hothers]
  refine wp_command fun env₀ _ => ?_
  refine wp_then (fun r t => r = .ok () ∧ ∀ k ∈ resourceKeys resource, t.hashes k = none) ?_ ?_
    (fun _ _ he => by cases he.1)
  · unfold persistClaims checked
    rw [hnul]
    exact wp_delClaims fun d e => ⟨rfl, hgone _ d e⟩
  · -- the second load finds nothing
    rintro _ u ⟨-, hu⟩
    refine wp_command fun env₁ _ => ?_
    have hnone : (u.wait env₁.delay).hashes (claimsRedisKey resource) = none :=
      hu _ List.mem_cons_self
    refine wp_then _ (wp_load_none hnone) ?_ fun _ _ he => by cases he.1
    rintro _ v ⟨-, hv⟩
    refine wp_command fun env₂ _ => wp_command fun env₃ _ => ?_
    intro k hk
    exact (congrFun hv k).trans (hu k hk)

/-- **Operations on one resource leave the keys of another alone exactly where the two are
separate.** -/
theorem frame_iff_separate (lib : Library) (hne : claimsKey left ≠ claimsKey right)
    (hnul : rejectNulBytes (claimsRedisKey left) "claim_key" = .ok ()) :
    (∀ op : ClaimOp, op.resource? = some left → ∀ env, ∀ s : Store, ∀ k ∈ resourceKeys right,
        (s.perform lib ⟨op, env⟩).1.hashes k = s.hashes k) ↔
      Separate left right := by
  constructor
  · intro hframe
    by_contra hclose
    rw [← disjoint_resourceKeys hne] at hclose
    push Not at hclose
    obtain ⟨k, hright, hleft⟩ := hclose
    let s := claimedAndResolved left "a"
    have hthere : ∀ key ∈ resourceKeys left,
        s.hashes key = some ⟨soleHash (endlessClaim left "a"), none⟩ := fun _ hkey => if_pos hkey
    have hkept := hframe (.release left "a") rfl (fun _ => ⟨0, []⟩) s k hright
    have hgone : (s.perform lib ⟨.release left "a", fun _ => ⟨0, []⟩⟩).1.hashes k = none := by
      have hwp : Wp lib (fun _ _ _ => True) ((ClaimOp.release left "a").program lib)
          (fun _ t => t.hashes k = none) s := by
        refine wp_then (fun _ t => t.hashes k = none) ?_ (fun _ _ ht => ht) fun _ _ ht => ht
        exact wp_mono _ _ _ (fun _ _ ht => ht k hleft)
          (wp_release_sole hnul (hthere _ List.mem_cons_self))
      rw [Store.perform]
      exact run_of_Wp (fun _ t => t.hashes k = none) hwp (along_of_forall fun _ _ _ => trivial)
    rw [hgone, hthere k hleft] at hkept
    cases hkept
  · exact fun hseparate op hop env s k hk => perform_frame hne hseparate hop env s hk

/-! ### Runs -/

/-- The operation is on a resource that is separate from this one, or a listing that comes by
claims only and not by the resolution of this one. -/
structure Spares (lib : Library) (resource : String) (s : Store) (i : ClaimInput) : Prop where
  separate : ∀ other, i.op.resource? = some other →
    claimsKey other ≠ claimsKey resource ∧ Separate other resource
  claims : i.op.resource? = none → (i.op.program lib).Along (serve lib) (LoadsClaims lib) i.env s
  resolution : i.op.resource? = none →
    claimResolutionKey (claimsRedisKey resource) ∉ (i.env 0).scanned

/-- The resolution of a resource is as it was, and each of its claims is found until its lease
ends. -/
structure Undisturbed (lib : Library) (resource : String) (s t : Store) : Prop where
  clock : s.clock ≤ t.clock
  resolution : t.hashes (claimResolutionKey (claimsRedisKey resource)) =
    s.hashes (claimResolutionKey (claimsRedisKey resource))
  kept : ∀ f T, t.clock ≤ T → s.Shows (claimsRedisKey resource) f T → Unexpired lib f.2 T →
    t.Shows (claimsRedisKey resource) f T
  added : ∀ f ∈ t.fields (claimsRedisKey resource), f ∈ s.fields (claimsRedisKey resource)

variable {resource : String}

theorem Undisturbed.trans {s t u : Store} (h : Undisturbed lib resource s t)
    (h' : Undisturbed lib resource t u) : Undisturbed lib resource s u where
  clock := h.clock.trans h'.clock
  resolution := h'.resolution.trans h.resolution
  kept f T hT hf hlive := h'.kept f T hT (h.kept f T (h'.clock.trans hT) hf hlive) hlive
  added f hf := h.added f (h'.added f hf)

theorem undisturbed_perform {s : Store} {i : ClaimInput} (h : Spares lib resource s i) :
    Undisturbed lib resource s (s.perform lib i).1 := by
  have hclock : s.clock ≤ (s.perform lib i).1.clock := run_clock lib _ i.env
  obtain ⟨op, env⟩ := i
  cases hop : op.resource? with
  | some other =>
    -- another resource: its keys are apart from those of this one
    obtain ⟨hne, hseparate⟩ := h.separate other hop
    have hframe : ∀ k ∈ resourceKeys resource, (s.perform lib ⟨op, env⟩).1.hashes k = s.hashes k :=
      fun k hk => perform_frame hne hseparate hop env s hk
    have hclaims := hframe (claimsRedisKey resource) (by simp [resourceKeys])
    exact
      { clock := hclock
        resolution := hframe _ (by simp [resourceKeys])
        kept := fun f T _ hf _ => hf.congr hclaims
        added := fun f hf => by rwa [fields_congr hclaims] at hf }
  | none =>
    cases op with
    | list resourceFilter statusFilter =>
      have hspared := list_spares resourceFilter statusFilter (h.claims hop)
      exact
        { clock := hclock
          resolution := hspared.others _ (h.resolution hop)
          kept := fun f => hspared.kept _ f
          added := hspared.added _ }
    | claim => cases hop
    | renew => cases hop
    | release => cases hop
    | resolve => cases hop
    | state => cases hop

theorem undisturbed_exec {is : List ClaimInput} {s : Store}
    (h : (claimBus lib).Meets (Spares lib resource) s is) :
    Undisturbed lib resource s ((claimBus lib).exec s is).1 := by
  refine (claimBus lib).exec_of_meets (I := fun t _ => Undisturbed lib resource s t) ?_
    ⟨le_rfl, rfl, fun _ _ _ hf _ => hf, fun _ hf => hf⟩ h
  exact fun t _ i hI hspares => hI.trans (undisturbed_perform hspares)

/-- **Frames of the claim operations.**  Operations on one resource leave the claims and the
resolution of another alone exactly where the two are separate; over a run of such operations, and
of listings that come by claims only, the resolution stays and every claim is found until its lease
ends.  A listing deletes every resolution it comes by. -/
theorem claim_frames (lib : Library) (resource : String) :
    (∀ other, claimsKey other ≠ claimsKey resource →
      rejectNulBytes (claimsRedisKey other) "claim_key" = .ok () →
      ((∀ op : ClaimOp, op.resource? = some other → ∀ env, ∀ s : Store,
          ∀ k ∈ resourceKeys resource, (s.perform lib ⟨op, env⟩).1.hashes k = s.hashes k) ↔
        Separate other resource)) ∧
    (∀ is s, (claimBus lib).Meets (Spares lib resource) s is →
      Undisturbed lib resource s ((claimBus lib).exec s is).1) ∧
    ∀ resourceFilter statusFilter env, ∀ s : Store,
      Unreadable lib s (claimResolutionKey (claimsRedisKey resource)) →
      claimResolutionKey (claimsRedisKey resource) ∈ (env 0).scanned →
      (s.perform lib ⟨.list resourceFilter statusFilter, env⟩).1.visible
        (claimResolutionKey (claimsRedisKey resource)) = none := by
  refine ⟨fun other hne hnul => frame_iff_separate lib hne hnul, fun is s => undisturbed_exec, ?_⟩
  intro resourceFilter statusFilter env s hunreadable hscan
  refine list_gone resourceFilter statusFilter hunreadable ?_ hscan
  rw [claimResolutionKey_claimsRedisKey, Text.startsWith, List.isPrefixOf_iff_prefix,
    String.toList_append]
  exact List.prefix_append _ _

end Operations

/-! ### Runs on sample resources -/

def sampleOptions : ClaimOptions where
  mode := .exclusive
  leaseNamespace := none
  scopeKind := none
  scopePath := none
  repoScopes := []
  threadId := none
  leaseTtlSeconds := 60
  scope := none

/-- A millisecond passes before each command, and `SCAN` comes by the keys of one resource. -/
def sampleCalls (_ : Nat) : CallEnv := ⟨1000000, resourceKeys "x"⟩

/-- A claim and its resolution. -/
def resolvedStore : Store :=
  ((claimBus sampleLibrary).exec {}
    [⟨.claim "x" "a" "first" sampleOptions, sampleCalls⟩,
     ⟨.resolve "x" "a" "first" "o", sampleCalls⟩]).1

/-- Another agent claims and releases another resource. -/
def elsewhere : List ClaimInput :=
  [⟨.claim "y" "b" "second" sampleOptions, sampleCalls⟩, ⟨.release "y" "b", sampleCalls⟩]

theorem claim_frames_elsewhere :
    Undisturbed sampleLibrary "x" resolvedStore
      ((claimBus sampleLibrary).exec resolvedStore elsewhere).1 := by
  have hseparate : claimsKey "y" ≠ claimsKey "x" ∧ Separate "y" "x" := by
    unfold Separate
    decide
  have hspares : ∀ s, ∀ i ∈ elsewhere, Spares sampleLibrary "x" s i := by
    intro s i hi
    have hresource : i.op.resource? = some "y" := by
      rcases List.mem_cons.1 hi with rfl | hi
      · rfl
      · rw [List.mem_singleton.1 hi]
        rfl
    refine ⟨fun other hother => ?_, fun hnone => ?_, fun hnone => ?_⟩
    · rw [hresource] at hother
      obtain rfl := Option.some.inj hother
      exact hseparate
    · rw [hresource] at hnone
      cases hnone
    · rw [hresource] at hnone
      cases hnone
  refine (claim_frames sampleLibrary "x").2.1 elsewhere resolvedStore ⟨?_, ?_, trivial⟩
  · exact hspares _ _ List.mem_cons_self
  · exact hspares _ _ (List.mem_cons_of_mem _ List.mem_cons_self)

/-- A claim of one resource, and one of the resource its resolution is a name of. -/
def collidingStore : Store :=
  ((claimBus sampleLibrary).exec {}
    [⟨.claim "x" "a" "first" sampleOptions, sampleCalls⟩,
     ⟨.claim "x:resolution" "b" "second" sampleOptions, sampleCalls⟩]).1

/-- `resolvedStore` with any library. -/
def resolvedStoreIn (lib : Library) : Store :=
  ((claimBus lib).exec {}
    [⟨.claim "x" "a" "first" sampleOptions, sampleCalls⟩,
     ⟨.resolve "x" "a" "first" "o", sampleCalls⟩]).1

/-- `collidingStore` with any library. -/
def collidingStoreIn (lib : Library) : Store :=
  ((claimBus lib).exec {}
    [⟨.claim "x" "a" "first" sampleOptions, sampleCalls⟩,
     ⟨.claim "x:resolution" "b" "second" sampleOptions, sampleCalls⟩]).1

theorem resolvedStore_eq : resolvedStore = resolvedStoreIn sampleLibrary := rfl

theorem collidingStore_eq : collidingStore = collidingStoreIn sampleLibrary := rfl

theorem list_breaks :
    ((resolvedStoreIn asciiLibrary).visible (claimResolutionKey (claimsRedisKey "x"))).isSome =
        true ∧
      (((resolvedStoreIn asciiLibrary).perform asciiLibrary ⟨.list none none, sampleCalls⟩).1.visible
        (claimResolutionKey (claimsRedisKey "x"))).isSome = false := by
  decide +kernel

theorem release_breaks :
    ((collidingStoreIn asciiLibrary).visible (claimsRedisKey "x:resolution")).isSome = true ∧
      (((collidingStoreIn asciiLibrary).perform asciiLibrary
        ⟨.release "x" "a", sampleCalls⟩).1.visible (claimsRedisKey "x:resolution")).isSome =
        false := by
  decide +kernel

/-- A listing deletes the resolution, and the release of one resource the claims of another. -/
theorem frames_broken :
    (resolvedStore.visible (claimResolutionKey (claimsRedisKey "x"))).isSome = true ∧
      ((resolvedStore.perform sampleLibrary ⟨.list none none, sampleCalls⟩).1.visible
        (claimResolutionKey (claimsRedisKey "x"))).isSome = false ∧
      (collidingStore.visible (claimsRedisKey "x:resolution")).isSome = true ∧
      ((collidingStore.perform sampleLibrary ⟨.release "x" "a", sampleCalls⟩).1.visible
        (claimsRedisKey "x:resolution")).isSome = false := by
  rw [resolvedStore_eq, collidingStore_eq, ← asciiLibrary_eq]
  exact ⟨list_breaks.1, list_breaks.2, release_breaks.1, release_breaks.2⟩

end AgentHub.Channels
