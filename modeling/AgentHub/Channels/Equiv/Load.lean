import AgentHub.Channels.Equiv.Store

/-!
# Loading and persisting claims

The rules of `wp` for `load_active_claims` and `persist_claims`, and what the two compute of a hash:
the claims in it that are still active, and the seconds it is kept for.
-/

namespace AgentHub.Channels

open AgentHub.Validation AgentHub.Outbox AgentHub.Hub Program Store

/-! ### The claims of a hash -/

section Claims

variable {lib : Library} {all : List (String × String)} {now : Nat}

theorem mem_activeClaims {claim : OwnershipClaim} :
    claim ∈ activeClaims lib all now ↔
      ∃ f ∈ all, lib.readClaim f.2 = some claim ∧ claimExpired lib claim now = false := by
  simp only [activeClaims, readEntries, List.mem_map, List.mem_filter, List.mem_filterMap,
    Option.map_eq_some_iff, Bool.not_eq_true']
  constructor
  · rintro ⟨-, ⟨⟨f, hf, read, hread, rfl⟩, hexpired⟩, rfl⟩
    exact ⟨f, hf, hread, hexpired⟩
  · rintro ⟨f, hf, hread, hexpired⟩
    exact ⟨(f.1, claim), ⟨⟨f, hf, claim, hread, rfl⟩, hexpired⟩, rfl⟩

theorem mem_expiredAgents {agent : String} :
    agent ∈ expiredAgents lib all now ↔
      ∃ f ∈ all, f.1 = agent ∧ ∃ claim, lib.readClaim f.2 = some claim ∧
        claimExpired lib claim now = true := by
  simp only [expiredAgents, readEntries, List.mem_map, List.mem_filter, List.mem_filterMap,
    Option.map_eq_some_iff]
  constructor
  · rintro ⟨-, ⟨⟨f, hf, claim, hread, rfl⟩, hexpired⟩, rfl⟩
    exact ⟨f, hf, rfl, claim, hread, hexpired⟩
  · rintro ⟨f, hf, rfl, claim, hread, hexpired⟩
    exact ⟨(f.1, claim), ⟨⟨f, hf, claim, hread, rfl⟩, hexpired⟩, rfl⟩

theorem claimExpired_iff {claim : OwnershipClaim} :
    claimExpired lib claim now = true ↔ ∃ E, expiry lib claim = some E ∧ E ≤ now := by
  unfold claimExpired
  rw [Option.any_eq_true]
  simp

theorem mem_sortClaims {claims : List OwnershipClaim} {claim : OwnershipClaim} :
    claim ∈ sortClaims claims ↔ claim ∈ claims := List.mem_mergeSort

theorem sortClaims_nil : sortClaims [] = [] := List.mergeSort_nil

theorem activeClaims_nil : activeClaims lib [] now = [] := rfl

/-- The whole seconds a lease has left are at most those of the longest. -/
theorem le_claimsHashTtlSeconds {claims : List OwnershipClaim} {claim : OwnershipClaim} {E : Int}
    (hclaim : claim ∈ claims) (hE : expiry lib claim = some E) (hlater : (now : Int) < E) :
    ((E - now) / nanosPerSecond).toNat ≤ claimsHashTtlSeconds lib claims now := by
  unfold claimsHashTtlSeconds
  extract_lets left
  have hmem : ((E - now) / nanosPerSecond).toNat ∈
      left.map fun expiry => ((expiry - (now : Int)) / (nanosPerSecond : Int)).toNat := by
    refine List.mem_map.2 ⟨E, List.mem_filter.2 ⟨?_, by simpa using hlater⟩, rfl⟩
    exact List.mem_filterMap.2 ⟨claim, hclaim, hE⟩
  obtain ⟨most, hmost⟩ := Option.isSome_iff_exists.1 (List.isSome_max?_of_mem hmem)
  rw [hmost]
  exact (List.max?_eq_some_iff.1 hmost).2 _ hmem

/-- The seconds are those of some lease, or one where none has any left. -/
theorem claimsHashTtlSeconds_cases (lib : Library) (claims : List OwnershipClaim) (now : Nat) :
    ((∀ claim ∈ claims, ∀ E, expiry lib claim = some E → E ≤ now) ∧
      claimsHashTtlSeconds lib claims now = 1) ∨
    ∃ claim ∈ claims, ∃ E, expiry lib claim = some E ∧ (now : Int) < E ∧
      claimsHashTtlSeconds lib claims now = ((E - now) / nanosPerSecond).toNat := by
  unfold claimsHashTtlSeconds
  extract_lets left
  cases hmost : (left.map fun expiry =>
      ((expiry - (now : Int)) / (nanosPerSecond : Int)).toNat).max? with
  | none =>
    refine .inl ⟨?_, rfl⟩
    intro claim hclaim E hE
    by_contra hlater
    have hleft : E ∈ left := List.mem_filter.2
      ⟨List.mem_filterMap.2 ⟨claim, hclaim, hE⟩, by simpa using hlater⟩
    rw [List.max?_eq_none_iff, List.map_eq_nil_iff] at hmost
    rw [hmost] at hleft
    cases hleft
  | some most =>
    right
    obtain ⟨E, hmem, hmost⟩ := List.mem_map.1 (List.max?_eq_some_iff.1 hmost).1
    obtain ⟨hread, hlater⟩ := List.mem_filter.1 hmem
    obtain ⟨claim, hclaim, hE⟩ := List.mem_filterMap.1 hread
    exact ⟨claim, hclaim, E, hE, by simpa using hlater, hmost.symm⟩

end Claims

/-! ### Loading -/

section Load

variable {lib : Library} {C : RedisCall → CallEnv → Store → Prop} {key : String}
  {post : Except ClaimError (List OwnershipClaim) → Store → Prop} {s : Store}

/-- The parts of a load: what it reads, then what it does with it. -/
theorem wp_loadActiveClaims
    (hempty : ∀ t, s.clock ≤ t.clock → t.hashes = s.hashes →
      (∀ h, t.visible key = some h → h.rows = []) → post (.ok []) t)
    (hsome : ∀ t env h, s.clock ≤ t.clock → t.hashes = s.hashes → C (.hgetall key) env t →
      (t.wait env.delay).visible key = some h → h.rows ≠ [] →
      Wp lib C (do
        hdelExpired key (expiredAgents lib h.rows t.clock)
        refreshClaims key (activeClaims lib h.rows t.clock) t.clock) post (t.wait env.delay)) :
    Wp lib C (loadActiveClaims lib key) post s := by
  refine wp_call fun env₀ _ => wp_call fun env hget => ?_
  have hclock : s.clock ≤ (s.wait env₀.delay).clock := Nat.le_add_right _ _
  have hlater : s.clock ≤ ((s.wait env₀.delay).wait env.delay).clock :=
    hclock.trans (Nat.le_add_right _ _)
  simp only [execute]
  cases hvisible : ((s.wait env₀.delay).wait env.delay).visible key with
  | none => exact hempty _ hlater rfl (by simp [hvisible])
  | some h =>
    show Wp lib C (if h.rows = [] then pure [] else _) post _
    by_cases hrows : h.rows = []
    · rw [if_pos hrows]
      exact hempty _ hlater rfl (by simpa [hvisible] using hrows)
    · rw [if_neg hrows]
      exact hsome (s.wait env₀.delay) env h hclock rfl hget hvisible hrows

theorem wp_hdelExpired {agents : List String} {post : Except ClaimError Unit → Store → Prop}
    (hnone : agents = [] → post (.ok ()) s)
    (hsome : agents ≠ [] → ∀ env, C (.hdel key agents) env s →
      post (.ok ()) ((s.wait env.delay).hdel key agents)) :
    Wp lib C (hdelExpired key agents) post s := by
  unfold hdelExpired
  split
  · exact hnone ‹_›
  · exact wp_call fun env hdel => hsome ‹_› env hdel

theorem wp_delClaims {post : Except ClaimError Unit → Store → Prop}
    (h : ∀ d e, post (.ok ())
      ((((s.wait d).del key).wait e).del (claimResolutionKey key))) :
    Wp lib C (delClaims key) post s :=
  wp_call fun env₀ _ => wp_call fun env₁ _ => h env₀.delay env₁.delay

theorem wp_refreshClaims {active : List OwnershipClaim} {now : Nat}
    (hempty : active = [] → ∀ d e, post (.ok [])
      ((((s.wait d).del key).wait e).del (claimResolutionKey key)))
    (hsome : active ≠ [] → ∀ env, C (.expireClaims key (sortClaims active) now) env s →
      post (.ok (sortClaims active))
        ((s.wait env.delay).expire key (claimsHashTtlSeconds lib (sortClaims active) now))) :
    Wp lib C (refreshClaims key active now) post s := by
  unfold refreshClaims
  split
  · exact wp_bind _ _ _ (wp_delClaims fun d e => hempty ‹_› d e)
  · exact wp_call fun env henv => hsome ‹_› env henv

end Load

end AgentHub.Channels
