import AgentHub.Channels.Equiv.Listing
import AgentHub.Channels.Equiv.Reader
import AgentHub.Channels.Equiv.Written

/-!
# The lifetime of a claim

A claim that an operation returns is found by every load until its lease ends, in every run that
drops it nowhere and whose lifetimes all cover the latest lease (`lease_kept`).
-/

namespace AgentHub.Channels

open AgentHub.Validation AgentHub.Outbox AgentHub.Hub Program Store

/-! ### Claims that are found -/

/-- The claim is found until its lease ends. -/
def Held (lib : Library) (key : String) (claim : OwnershipClaim) (s : Store) : Prop :=
  ∀ E, expiry lib claim = some E → ∀ T : Nat, s.clock ≤ T → (T : Int) < E →
    ∃ same, core same = core claim ∧ s.Shows key (same.agent, claimText same) T

/-- The claim is among others unless its lease is over. -/
def Among (lib : Library) (claim : OwnershipClaim) (claims : List OwnershipClaim) (now : Nat) :
    Prop :=
  ∀ E, expiry lib claim = some E → (now : Int) < E → ∃ same ∈ claims, core same = core claim

/-- A call with a lifetime that covers, on hashes of claims. -/
def Covering (lib : Library) (c : RedisCall) (env : CallEnv) (s : Store) : Prop :=
  Covered lib c env s ∧ Tidy s

section Held

variable {lib : Library} {key : String} {claim : OwnershipClaim} {s t : Store}

theorem Held.congr (h : Held lib key claim s) (hclock : s.clock ≤ t.clock)
    (hhashes : t.hashes key = s.hashes key) : Held lib key claim t := by
  intro E hE T hT hlater
  obtain ⟨same, hcore, hshows⟩ := h E hE T (hclock.trans hT) hlater
  exact ⟨same, hcore, hshows.congr hhashes⟩

theorem Held.of_spared {keys : List String} (h : Held lib key claim s)
    (hspared : Spared lib keys s t) : Held lib key claim t := by
  intro E hE T hT hlater
  obtain ⟨same, hcore, hshows⟩ := h E hE T (hspared.clock.trans hT) hlater
  refine ⟨same, hcore, hspared.kept key _ T hT hshows ?_⟩
  exact ⟨same, E, lib.readClaim_text same, (expiry_of_core hcore).trans hE, hlater⟩

/-- Once the lease is over nothing is left to be found. -/
theorem Held.of_late (h : ∀ E, expiry lib claim = some E → E ≤ (s.clock : Int)) :
    Held lib key claim s := by
  intro E hE T hT hlater
  have hpast := h E hE
  omega

theorem Among.later {claims : List OwnershipClaim} {now later : Nat}
    (h : Among lib claim claims now) (hle : now ≤ later) : Among lib claim claims later :=
  fun E hE hlater => h E hE (by omega)

/-- The claims a load reads of a hash that holds the claim. -/
theorem Held.active (h : Held lib key claim s) {hash : Hash} {now : Nat} (hnow : now ≤ s.clock)
    (hvisible : s.visible key = some hash) {E : Int} (hE : expiry lib claim = some E)
    (hlater : (s.clock : Int) < E) :
    ∃ same ∈ activeClaims lib hash.rows now, core same = core claim := by
  obtain ⟨same, hcore, hshows⟩ := h E hE s.clock le_rfl hlater
  have hopen : claimExpired lib same now = false := by
    rw [Bool.eq_false_iff]
    intro hexpired
    obtain ⟨E', hE', hpast⟩ := claimExpired_iff.1 hexpired
    rw [expiry_of_core hcore, hE] at hE'
    have hsame : E = E' := Option.some.inj hE'
    omega
  have hmem : (same.agent, claimText same) ∈ hash.rows := by
    rw [← fields_of_visible hvisible]
    exact hshows.mem_fields
  exact ⟨same, mem_activeClaims.2 ⟨_, hmem, lib.readClaim_text same, hopen⟩, hcore⟩

/-- **A load of the claims of a resource.** -/
theorem wp_load_held (hplain : Plain key) (hheld : Held lib key claim s) :
    Wp lib (Covering lib) (loadActiveClaims lib key)
      (fun r t => s.clock ≤ t.clock ∧ Held lib key claim t ∧ ∃ claims, r = .ok claims ∧
        Sound claims ∧ Among lib claim claims t.clock) s := by
  refine wp_loadActiveClaims ?_ ?_
  · -- the hash is not there, so a claim that is held would have been seen in it
    intro t hclock hhashes hempty
    refine ⟨hclock, hheld.congr hclock (congrFun hhashes key), [], rfl, ⟨by simp, .nil⟩, ?_⟩
    intro E hE hlater
    obtain ⟨same, -, hshows⟩ :=
      (hheld.congr hclock (congrFun hhashes key)) E hE t.clock le_rfl hlater
    obtain ⟨hash, hvisible, hmem⟩ := hshows.visible le_rfl
    rw [hempty hash hvisible] at hmem
    cases hmem
  · intro t env h hclock hhashes hget hvisible hrows
    have hread : Spared lib [key] s (t.wait env.delay) :=
      .of_hashes (hclock.trans (Nat.le_add_right _ _)) hhashes
    have hnow : t.clock ≤ (t.wait env.delay).clock := Nat.le_add_right _ _
    have hfields : s.fields key = h.rows := by
      rw [← fields_of_visible hvisible]
      exact fields_congr (congrFun hhashes key).symm
    have hsound : Sound (sortClaims (activeClaims lib h.rows t.clock)) := by
      refine sound_activeClaims fun f hf => hget.2 key hplain f ?_
      rw [fields_congr (congrFun hhashes key), hfields]
      exact hf
    -- a claim that still lasts when the clock is read is among the active ones
    have hactive : ∀ E, expiry lib claim = some E → ((t.wait env.delay).clock : Int) < E →
        ∃ same ∈ activeClaims lib h.rows t.clock, core same = core claim := fun E hE hlater =>
      (hheld.of_spared hread).active hnow hvisible hE hlater
    refine wp_then (fun r u => r = .ok () ∧ (t.wait env.delay).clock ≤ u.clock ∧
      Spared lib [key] s u) (wp_hdelExpired (fun _ => ⟨rfl, le_rfl, hread⟩) ?_) ?_ ?_
    · -- what has expired is deleted, and nothing else
      intro _ env₁ _
      refine ⟨rfl, ?_, hread.trans (.hdel hvisible hnow env₁.delay)⟩
      rw [hdel_clock]
      exact Nat.le_add_right _ _
    · rintro _ u ⟨-, hlater, hu⟩
      refine wp_refreshClaims (fun hnone d e => ?_) (fun _ env₂ hcovered => ?_)
      · -- no claim is active: the hash goes, and the claim had ended by then
        have hend : u.clock ≤ ((((u.wait d).del key).wait e).del (claimResolutionKey key)).clock :=
          (Nat.le_add_right _ d).trans (Nat.le_add_right _ e)
        have hover : ∀ E, expiry lib claim = some E → E ≤
            (((((u.wait d).del key).wait e).del (claimResolutionKey key)).clock : Int) := by
          intro E hE
          by_contra hopen
          obtain ⟨same, hmem, -⟩ := hactive E hE (by omega)
          rw [hnone] at hmem
          cases hmem
        refine ⟨hu.clock.trans hend, .of_late hover, [], rfl, ⟨by simp, .nil⟩, ?_⟩
        intro E hE hopen
        have hpast := hover E hE
        omega
      · -- some claim is active: the hash is kept until the last of them ends
        have hspared := hu.expire hfields (hnow.trans hlater) hcovered.1
        refine ⟨hspared.clock, hheld.of_spared hspared, _, rfl, hsound, fun E hE hopen => ?_⟩
        rw [expire_clock, wait_clock] at hopen
        obtain ⟨same, hmem, hcore⟩ := hactive E hE (by omega)
        exact ⟨same, mem_sortClaims.2 hmem, hcore⟩
    · rintro e u ⟨he, -⟩
      cases he

end Held

/-! ### Writing claims -/

/-- A field of a hash without a deadline. -/
def Endless (s : Store) (key : String) (f : String × String) : Prop :=
  ∃ h : Hash, s.hashes key = some ⟨h, none⟩ ∧ f ∈ h.rows

section Write

variable {lib : Library} {C : RedisCall → CallEnv → Store → Prop} {key : String} {s : Store}

theorem Endless.shows {f : String × String} (h : Endless s key f) (T : Nat) :
    s.Shows key f T := by
  obtain ⟨hash, hhash, hf⟩ := h
  exact ⟨_, hhash, hf, by rintro _ ⟨⟩⟩

/-- `HSET` of one field of a hash without a deadline. -/
theorem hset_endless (hdeadline : s.deadline key = none) (f : String × String) :
    (s.hset key [f]).deadline key = none ∧ Endless (s.hset key [f]) key f ∧
      ∀ g, Endless s key g → g.1 ≠ f.1 → Endless (s.hset key [f]) key g := by
  unfold Store.hset
  cases hvisible : s.visible key with
  | none =>
    simp only [Store.deadline, setKey_self, Option.bind_some]
    refine ⟨trivial, ⟨_, setKey_self, ?_⟩, ?_⟩
    · exact Table.mem_put.2 (.inr rfl)
    · rintro g ⟨hash, hhash, -⟩
      have hthere : s.visible key = some hash :=
        visible_eq_some.2 ⟨_, hhash, rfl, by rintro _ ⟨⟩⟩
      rw [hvisible] at hthere
      cases hthere
  | some hash =>
    have hslot : s.hashes key = some ⟨hash, none⟩ := by
      obtain ⟨⟨value, deadline⟩, hslot, rfl, -⟩ := visible_eq_some.1 hvisible
      simp only [Store.deadline, hslot, Option.bind_some] at hdeadline
      rw [hslot, hdeadline]
    simp only [hdeadline]
    refine ⟨by simp [Store.deadline], ⟨_, setKey_self, ?_⟩, ?_⟩
    · exact Table.mem_put.2 (.inr rfl)
    · rintro g ⟨hash', hhash', hg⟩ hne
      rw [hslot] at hhash'
      obtain rfl : hash = hash' := by injection Option.some.inj hhash'
      exact ⟨_, setKey_self, Table.mem_put.2 (.inl ⟨hg, hne⟩)⟩

/-- **The loop that writes claims.**  A claim is written if all are, or if those before it and
itself can be. -/
theorem wp_writeClaims {claims : List OwnershipClaim}
    (hagents : claims.Pairwise fun a b => a.agent ≠ b.agent) (hdeadline : s.deadline key = none) :
    Wp lib C (writeClaims key claims) (fun r t => s.clock ≤ t.clock ∧
      (∀ g, Endless s key g → (∀ claim ∈ claims, claim.agent ≠ g.1) → Endless t key g) ∧
      ∀ before same after, claims = before ++ same :: after →
        (r = .ok () ∨ ∀ other ∈ same :: before, validateClaimNulFields other = .ok ()) →
        Endless t key (same.agent, claimText same)) s := by
  induction claims generalizing s with
  | nil =>
    refine ⟨le_rfl, fun g hg _ => hg, fun before same after hnil => ?_⟩
    simp at hnil
  | cons head claims ih =>
    obtain ⟨hhead, hrest⟩ := List.pairwise_cons.1 hagents
    -- the loop writes the claims in order and stops at the first that is refused
    show Wp lib C (checked (validateClaimNulFields head) >>= _) _ s
    cases hvalid : validateClaimNulFields head with
    | error e =>
      refine ⟨le_rfl, fun g hg _ => hg, ?_⟩
      rintro before same after hsplit (hok | hall)
      · cases hok
      · -- The loop stops at the first claim, which is `same` or before it.
        have hmem : head ∈ same :: before := by
          cases before with
          | nil => simp_all
          | cons first before => simp_all
        rw [hall head hmem] at hvalid
        cases hvalid
    | ok u =>
      show Wp lib C (command (.hset key [(head.agent, claimText head)]) >>= _) _ s
      refine wp_command fun env _ => ?_
      have hwaited : (s.wait env.delay).deadline key = none := hdeadline
      obtain ⟨hnone, hnew, hold⟩ := hset_endless hwaited (head.agent, claimText head)
      refine wp_mono _ _ _ ?_ (ih hrest hnone)
      rintro r t ⟨hclock, hkept, hwritten⟩
      have hfirst : Endless t key (head.agent, claimText head) :=
        hkept _ hnew fun other hother heq => hhead other hother heq.symm
      refine ⟨?_, fun g hg hne => ?_, ?_⟩
      · refine le_trans ?_ hclock
        show s.clock ≤ ((s.wait env.delay).hset key _).clock
        rw [hset_clock]
        exact Nat.le_add_right _ _
      · refine hkept g (hold g hg ?_) fun other hother => hne other (List.mem_cons_of_mem _ hother)
        exact (hne head List.mem_cons_self).symm
      · intro before same after hsplit hwhen
        cases before with
        -- the claim that is asked for is the first one: later writes are for other agents
        | nil =>
          obtain ⟨rfl, -⟩ := List.cons.inj hsplit
          exact hfirst
        | cons first before =>
          obtain ⟨rfl, htail⟩ := List.cons.inj hsplit
          refine hwritten before same after htail (hwhen.imp_right fun hall other hother => ?_)
          refine hall other ?_
          rcases List.mem_cons.1 hother with rfl | hbefore
          · exact List.mem_cons_self
          · exact List.mem_cons_of_mem _ (List.mem_cons_of_mem _ hbefore)

/-- **`persist_claims`** of claims that are not empty: a claim that is written is found until its
lease ends. -/
theorem wp_persistClaims {claims : List OwnershipClaim} {now : Nat} (hne : claims ≠ [])
    (hagents : claims.Pairwise fun a b => a.agent ≠ b.agent)
    (hnul : rejectNulBytes key "claim_key" = .ok ()) (hnow : now ≤ s.clock) :
    Wp lib (Covering lib) (persistClaims key claims now) (fun r t => s.clock ≤ t.clock ∧
      ∀ before same after, claims = before ++ same :: after →
        (r = .ok () ∨ ∀ other ∈ same :: before, validateClaimNulFields other = .ok ()) →
        ∀ E, expiry lib same = some E → ∀ T : Nat, t.clock ≤ T → (T : Int) < E →
          t.Shows key (same.agent, claimText same) T) s := by
  unfold persistClaims checked
  rw [hnul, if_neg hne]
  -- the hash is deleted first, then it has no deadline of its own
  show Wp lib _ (command (.del key) >>= _) _ s
  refine wp_command fun env₀ _ => ?_
  have hdeleted : s.clock ≤ ((s.wait env₀.delay).del key).clock := Nat.le_add_right _ _
  have hdeadline : ((s.wait env₀.delay).del key).deadline key = none := by
    simp [Store.deadline, Store.del]
  refine wp_then _ (wp_writeClaims hagents hdeadline) ?_ ?_
  · -- all claims were written: the deadline set behind them covers the last one
    rintro _ u ⟨hclock, -, hwritten⟩
    refine wp_call fun env hcovering => ?_
    have hend : u.clock ≤ ((u.wait env.delay).expire key
        (claimsHashTtlSeconds lib claims now)).clock := by
      rw [expire_clock]
      exact Nat.le_add_right _ _
    refine ⟨(hdeleted.trans hclock).trans hend, ?_⟩
    intro before same after hsplit _ E hE T hT hlater
    have hT' : (u.wait env.delay).clock ≤ T := by
      have hT' := hT
      dsimp only [execute] at hT'
      rwa [expire_clock] at hT'
    have hmem : same ∈ claims := by
      rw [hsplit]
      exact List.mem_append_right _ List.mem_cons_self
    obtain ⟨last, hlast, hle⟩ := exists_latest hmem hE
    have hopen : (now : Int) < last := by
      have hchain := (hnow.trans (hdeleted.trans hclock)).trans
        ((Nat.le_add_right u.clock env.delay).trans hT')
      omega
    have hshows := (hwritten before same after hsplit (.inl rfl)).shows T
    have hwaited : (u.wait env.delay).Shows key (same.agent, claimText same) T := hshows
    exact hwaited.expire hlast hopen (hcovering.1 last hlast hopen) hT' (hlater.trans_le hle)
  · -- a write was refused: what was written before it has no deadline
    rintro e u ⟨hclock, -, hwritten⟩
    refine ⟨hdeleted.trans hclock, fun before same after hsplit hwhen E _ T _ _ => ?_⟩
    have hvalid := hwhen.resolve_left fun hok => by cases hok
    exact (hwritten before same after hsplit (.inr hvalid)).shows T

end Write

/-! ### Operations of others -/

section Others

seal persistClaims

variable {lib : Library} {C : RedisCall → CallEnv → Store → Prop} {key : String}
  {claim : OwnershipClaim} {s : Store}

/-- Commands on other keys leave the claim. -/
theorem wp_elsewhere {α : Type} {p : Claiming α} (h : Only (fun c => key ∉ c.writes) p)
    (hheld : Held lib key claim s) : Wp lib C p (fun _ t => Held lib key claim t) s := by
  refine Only.wp (I := fun t => Held lib key claim t) ?_ h hheld
  intro c d scanned t hc ht
  refine ht.congr ?_ (execute_other lib scanned hc)
  rw [execute_clock]
  exact Nat.le_add_right _ _

theorem wp_late {α : Type} {p : Claiming α}
    (h : ∀ E, expiry lib claim = some E → E ≤ (s.clock : Int)) :
    Wp lib C p (fun _ t => Held lib key claim t) s := by
  refine wp_mono _ _ _ (fun r t hclock => .of_late fun E hE => ?_) (wp_clock lib p)
  have hpast := h E hE
  omega

/-- A command on no key, and what follows it. -/
theorem wp_idle {α : Type} {c : RedisCall} {f : c.Reply → Claiming α} (hc : key ∉ c.writes)
    (hheld : Held lib key claim s)
    (h : ∀ (r : c.Reply) t, s.clock ≤ t.clock → t.hashes key = s.hashes key →
      Held lib key claim t → Wp lib C (f r) (fun _ t => Held lib key claim t) t) :
    Wp lib C (command c >>= f) (fun _ t => Held lib key claim t) s := by
  refine wp_command fun env _ => ?_
  have hclock : s.clock ≤ ((s.wait env.delay).execute lib env.scanned c).1.clock := by
    rw [execute_clock]
    exact Nat.le_add_right _ _
  have hsame : ((s.wait env.delay).execute lib env.scanned c).1.hashes key = s.hashes key :=
    execute_other lib env.scanned hc
  exact h _ _ hclock hsame (hheld.congr hclock hsame)

/-- A check in an operation. -/
theorem wp_checking {α β : Type} {result : Except ClaimError α} {f : α → Claiming β}
    (hheld : Held lib key claim s)
    (h : ∀ a, result = .ok a → Wp lib C (f a) (fun _ t => Held lib key claim t) s) :
    Wp lib C (check result >>= f) (fun _ t => Held lib key claim t) s := by
  cases result with
  | ok a => exact h a rfl
  | error e => exact hheld

/-- **The claims are written again**, the claim among them unless its lease is over. -/
theorem wp_persist_held {claims changed : List OwnershipClaim} {now : Nat}
    (hnul : rejectNulBytes key "claim_key" = .ok ()) (hnow : now ≤ s.clock)
    (hfound : Among lib claim claims s.clock)
    (hkeeps : ∀ same ∈ claims, core same = core claim → Keeps claim changed) :
    Wp lib (Covering lib) (persistClaims key changed now) (fun _ t => Held lib key claim t) s := by
  by_cases hopen : ∃ E, expiry lib claim = some E ∧ (s.clock : Int) < E
  · obtain ⟨E, hE, hlater⟩ := hopen
    obtain ⟨same, hmem, hcore⟩ := hfound E hE hlater
    have hkeeps := hkeeps same hmem hcore
    obtain ⟨before, kept, after, hsplit, hkept, hvalid⟩ := hkeeps.written
    refine wp_mono _ _ _ ?_ (wp_persistClaims hkeeps.ne_nil hkeeps.agents hnul hnow)
    rintro r t ⟨-, hwritten⟩ E' hE' T hT hlater'
    exact ⟨kept, hkept, hwritten before kept after hsplit (.inr hvalid) E'
      ((expiry_of_core hkept).trans hE') T hT hlater'⟩
  · refine wp_late fun E hE => ?_
    by_contra hlater
    exact hopen ⟨E, hE, by omega⟩

/-- The claims of the resource are loaded. -/
theorem wp_load_then {α : Type} {f : List OwnershipClaim → Claiming α} (hplain : Plain key)
    (hheld : Held lib key claim s)
    (h : ∀ claims t, s.clock ≤ t.clock → Held lib key claim t → Sound claims →
      Among lib claim claims t.clock →
      Wp lib (Covering lib) (f claims) (fun _ t => Held lib key claim t) t) :
    Wp lib (Covering lib) (loadActiveClaims lib key >>= f) (fun _ t => Held lib key claim t) s := by
  refine wp_then _ (wp_load_held hplain hheld) ?_ fun _ _ h => h.2.1
  rintro loaded t ⟨hclock, hheld, claims, hloaded, hsound, hfound⟩
  obtain rfl : loaded = claims := Except.ok.inj hloaded
  exact h loaded t hclock hheld hsound hfound

/-- The claims of the resource are written again. -/
theorem wp_persist_then {α : Type} {f : Unit → Claiming α}
    {claims changed : List OwnershipClaim} {now : Nat}
    (hnul : rejectNulBytes key "claim_key" = .ok ()) (hnow : now ≤ s.clock)
    (hfound : Among lib claim claims s.clock)
    (hkeeps : ∀ same ∈ claims, core same = core claim → Keeps claim changed)
    (h : ∀ t, Held lib key claim t →
      Wp lib (Covering lib) (f ()) (fun _ t => Held lib key claim t) t) :
    Wp lib (Covering lib) (persistClaims key changed now >>= f)
      (fun _ t => Held lib key claim t) s :=
  wp_then _ (wp_persist_held hnul hnow hfound hkeeps) (fun _ t hheld => h t hheld)
    fun _ _ hheld => hheld

variable {resource : String} (hplain : Plain (claimsRedisKey resource))
  (hheld : Held lib (claimsRedisKey resource) claim s)

include hplain hheld

theorem wp_state_held :
    Wp lib (Covering lib) (getArbitrationState lib resource)
      (fun _ t => Held lib (claimsRedisKey resource) claim t) s := by
  refine wp_load_then hplain hheld fun claims t _ hheld _ _ => ?_
  refine wp_idle (by simp [RedisCall.writes]) hheld fun winner u _ _ hheld => ?_
  exact wp_idle (by simp [RedisCall.writes]) hheld fun reason v _ _ hheld => hheld

variable (hnul : rejectNulBytes (claimsRedisKey resource) "claim_key" = .ok ())

include hnul

/-- Another agent claims the resource. -/
theorem wp_claim_held {agent : String} (hagent : agent ≠ claim.agent) (priorityArgument : String)
    (options : ClaimOptions) :
    Wp lib (Covering lib) (claimResourceWithOptions lib resource agent priorityArgument options)
      (fun _ t => Held lib (claimsRedisKey resource) claim t) s := by
  unfold claimResourceWithOptions
  refine wp_checking hheld fun _ _ => ?_
  refine wp_now fun d => ?_
  have hwaited : Held lib (claimsRedisKey resource) claim (s.wait d) :=
    hheld.congr (Nat.le_add_right _ _) rfl
  refine wp_checking hwaited fun expiresAt _ => ?_
  refine wp_load_then hplain hwaited fun loaded t hclock _ hsound hfound => ?_
  refine wp_persist_then hnul hclock hfound ?_ ?_
  · intro same hmem hcore
    have hother : same ∈ loaded.filter fun claim => claim.agent ≠ agent := by
      rw [List.mem_filter, decide_eq_true_eq, agent_of_core hcore]
      exact ⟨hmem, hagent.symm⟩
    have hkept := (hsound.filter _).keeps hother hcore
    refine Keeps.congr (hkept.append fun other hmem => ?_) (map_core_recompute _)
    exact of_decide_eq_true (List.mem_filter.1 hmem).2
  · intro u hheld
    refine wp_elsewhere ?_ hheld
    split
    · exact only_check (.error _)
    · refine (only_claimNotices (fun c hc => ?_) _ _ _ _ _).bind fun _ => only_done _
      rw [hc]
      exact List.not_mem_nil

/-- Another agent renews its claim. -/
theorem wp_renew_held {agent : String} (hagent : agent ≠ claim.agent)
    (leaseTtlSeconds : Option UInt64) :
    Wp lib (Covering lib) (renewClaim lib resource agent leaseTtlSeconds)
      (fun _ t => Held lib (claimsRedisKey resource) claim t) s := by
  unfold renewClaim
  refine wp_load_then hplain hheld fun loaded t _ hheld hsound hfound => ?_
  refine wp_now fun d => ?_
  have hwaited : Held lib (claimsRedisKey resource) claim (t.wait d) :=
    hheld.congr (Nat.le_add_right _ _) rfl
  dsimp only
  split
  · exact hwaited
  · rename_i old hold
    refine wp_checking hwaited fun expiresAt hexpires => ?_
    obtain rfl := computeExpiry_eq_ok hexpires
    refine wp_persist_then hnul le_rfl (hfound.later (Nat.le_add_right _ d)) ?_ ?_
    · -- the renewed claim replaces that of its own agent alone
      intro same hmem hcore
      have hvalid := hsound.valid old (List.mem_of_find?_eq_some hold)
      have hother : same.agent ≠ old.agent := by
        have hname : old.agent = agent := by simpa using List.find?_some hold
        rw [agent_of_core hcore, hname]
        exact hagent.symm
      refine Keeps.congr ?_ (map_core_recompute _)
      exact (hsound.renewFirst (valid_renewed hvalid)).keeps (mem_renewFirst_of_mem hmem hother)
        hcore
    · intro u hheld
      exact wp_idle (by simp [RedisCall.writes]) hheld fun _ v _ _ hheld => hheld

/-- Another agent releases its claim. -/
theorem wp_release_held {agent : String} (hagent : agent ≠ claim.agent) :
    Wp lib (Covering lib) (releaseClaim lib resource agent)
      (fun _ t => Held lib (claimsRedisKey resource) claim t) s := by
  unfold releaseClaim
  refine wp_load_then hplain hheld fun loaded t _ hheld hsound hfound => ?_
  dsimp only
  split
  · exact hheld
  · refine wp_now fun d => ?_
    refine wp_persist_then hnul le_rfl (hfound.later (Nat.le_add_right _ d)) ?_ ?_
    · intro same hmem hcore
      have hother : same ∈ loaded.filter fun claim => claim.agent ≠ agent := by
        rw [List.mem_filter, decide_eq_true_eq, agent_of_core hcore]
        exact ⟨hmem, hagent.symm⟩
      exact ((hsound.filter _).keeps hother hcore).congr (map_core_recompute _)
    · intro u hheld
      refine wp_idle (by simp [RedisCall.writes]) hheld fun _ v _ _ hheld => ?_
      exact wp_state_held hplain hheld

/-- The resource is resolved. -/
theorem wp_resolve_held (winner reason resolvedBy : String) :
    Wp lib (Covering lib) (resolveClaim lib resource winner reason resolvedBy)
      (fun _ t => Held lib (claimsRedisKey resource) claim t) s := by
  have hresolution : ∀ c : RedisCall,
      c.writes = [claimResolutionKey (claimsRedisKey resource)] →
      claimsRedisKey resource ∉ c.writes := by
    intro c hc
    rw [hc, List.mem_singleton]
    exact hplain.ne_resolution (claimsKey resource)
  unfold resolveClaim
  refine wp_load_then hplain hheld fun loaded t _ hheld hsound hfound => ?_
  split
  · exact hheld
  · refine wp_now fun d => ?_
    refine wp_persist_then hnul le_rfl (hfound.later (Nat.le_add_right _ d)) ?_ ?_
    · -- the outcome changes the status of a claim, not what is held
      intro same hmem hcore
      exact (hsound.keeps hmem hcore).congr (map_core_outcome winner loaded)
    · intro u hheld
      refine wp_idle (by simp [RedisCall.writes]) hheld fun _ v _ _ hheld => ?_
      refine wp_idle (hresolution _ rfl) hheld fun _ w _ _ hheld => ?_
      refine wp_idle (hresolution _ rfl) hheld fun _ x _ _ hheld => ?_
      -- the notices touch no claims key
      refine wp_then _ (wp_state_held hplain hheld) (fun state y hheld => ?_) fun _ _ h => h
      refine wp_elsewhere ?_ hheld
      have hidle : ∀ c : RedisCall, c.writes = [] → claimsRedisKey resource ∉ c.writes := by
        intro c hc
        rw [hc]
        exact List.not_mem_nil
      refine (only_resolveNotices hidle _ _ _ _ _).bind fun _ => ?_
      exact (only_command (hidle _ rfl)).bind fun _ => only_done _

end Others

/-! ### Grants -/

section Grants

seal persistClaims

variable {lib : Library} {key : String} {s : Store}

/-- A claim without an end is held at any time. -/
theorem held_endless (resource agent : String) : Held lib key (endlessClaim resource agent) s := by
  intro E hE
  cases hE

theorem wp_load_sound (hplain : Plain key) :
    Wp lib (Covering lib) (loadActiveClaims lib key)
      (fun r t => s.clock ≤ t.clock ∧ ∃ claims, r = .ok claims ∧ Sound claims) s := by
  refine wp_mono _ _ _ ?_ (wp_load_held hplain (held_endless "" ""))
  rintro r t ⟨hclock, -, claims, hloaded, hsound, -⟩
  exact ⟨hclock, claims, hloaded, hsound⟩

/-- All claims that are written without an error are found until their leases end. -/
theorem wp_persist_grants {claims : List OwnershipClaim} {now : Nat} (hne : claims ≠ [])
    (hagents : claims.Pairwise fun a b => a.agent ≠ b.agent) (hnow : now ≤ s.clock) :
    Wp lib (Covering lib) (persistClaims key claims now) (fun r t => r = .ok () →
      rejectNulBytes key "claim_key" = .ok () ∧ ∀ claim ∈ claims, Held lib key claim t) s := by
  cases hnul : rejectNulBytes key "claim_key" with
  | error e =>
    unfold persistClaims checked
    rw [hnul]
    intro hok
    cases hok
  | ok u =>
    refine wp_mono _ _ _ ?_ (wp_persistClaims hne hagents hnul hnow)
    rintro r t ⟨-, hwritten⟩ rfl
    refine ⟨rfl, fun claim hclaim E hE T hT hlater => ?_⟩
    obtain ⟨before, after, hsplit⟩ := List.append_of_mem hclaim
    exact ⟨claim, rfl, hwritten before claim after hsplit (.inl rfl) E hE T hT hlater⟩

/-- What an operation that gives a claim to an agent ends with. -/
def Granted (lib : Library) (key agent : String) (r : Except ClaimError OwnershipClaim)
    (t : Store) : Prop :=
  ∀ claim, r = .ok claim →
    claim.agent = agent ∧ rejectNulBytes key "claim_key" = .ok () ∧ Held lib key claim t

theorem granted_error {agent : String} (e : ClaimError) :
    Granted lib key agent (.error e) s := by
  intro claim h
  cases h

theorem core_eq_held {a b : OwnershipClaim} (h : core a = core b) (hheld : Held lib key a s) :
    Held lib key b s := by
  intro E hE T hT hlater
  obtain ⟨same, hcore, hshows⟩ := hheld E ((expiry_of_core h).trans hE) T hT hlater
  exact ⟨same, hcore.trans h, hshows⟩

theorem wp_load_grants {f : List OwnershipClaim → Claiming OwnershipClaim} {agent : String}
    (hplain : Plain key)
    (h : ∀ claims t, s.clock ≤ t.clock → Sound claims →
      Wp lib (Covering lib) (f claims) (Granted lib key agent) t) :
    Wp lib (Covering lib) (loadActiveClaims lib key >>= f) (Granted lib key agent) s := by
  refine wp_then _ (wp_load_sound hplain) ?_ fun e t _ => granted_error e
  rintro loaded t ⟨hclock, claims, hloaded, hsound⟩
  obtain rfl : loaded = claims := Except.ok.inj hloaded
  exact h loaded t hclock hsound

theorem wp_persist_then_grants {f : Unit → Claiming OwnershipClaim} {claims : List OwnershipClaim}
    {now : Nat} {agent : String} (hne : claims ≠ [])
    (hagents : claims.Pairwise fun a b => a.agent ≠ b.agent) (hnow : now ≤ s.clock)
    (h : ∀ t, rejectNulBytes key "claim_key" = .ok () → (∀ claim ∈ claims, Held lib key claim t) →
      Wp lib (Covering lib) (f ()) (Granted lib key agent) t) :
    Wp lib (Covering lib) (persistClaims key claims now >>= f) (Granted lib key agent) s := by
  refine wp_then _ (wp_persist_grants hne hagents hnow) ?_ fun e t _ => granted_error e
  intro _ t hpersisted
  obtain ⟨hnul, hheld⟩ := hpersisted rfl
  exact h t hnul hheld

theorem wp_check_grants {α : Type} {result : Except ClaimError α}
    {f : α → Claiming OwnershipClaim} {agent : String}
    (h : ∀ a, result = .ok a → Wp lib (Covering lib) (f a) (Granted lib key agent) s) :
    Wp lib (Covering lib) (check result >>= f) (Granted lib key agent) s := by
  cases result with
  | ok a => exact h a rfl
  | error e => exact granted_error e

variable {resource agent : String} (hplain : Plain (claimsRedisKey resource))

include hplain

/-- **A claim that is returned is held.** -/
theorem wp_claim_grants (priorityArgument : String) (options : ClaimOptions) :
    Wp lib (Covering lib) (claimResourceWithOptions lib resource agent priorityArgument options)
      (Granted lib (claimsRedisKey resource) agent) s := by
  unfold claimResourceWithOptions
  refine wp_check_grants fun _ _ => wp_now fun d => wp_check_grants fun expiresAt _ => ?_
  refine wp_load_grants hplain fun loaded t hclock hsound => ?_
  have hagents : (loaded.filter (fun claim => claim.agent ≠ agent) ++
      [newClaim lib resource agent priorityArgument options (s.wait d).clock expiresAt]).Pairwise
        fun a b => a.agent ≠ b.agent := by
    -- the agent's own older claim was filtered out
    refine List.pairwise_append.2
      ⟨(hsound.filter _).agents, List.pairwise_singleton _ _, fun a ha b hb => ?_⟩
    rw [List.mem_singleton.1 hb]
    exact of_decide_eq_true (List.mem_filter.1 ha).2
  refine wp_persist_then_grants ?_ (agents_congr hagents (map_agent_recompute _)) hclock
    fun u hnul hheld => ?_
  · simp [recomputeClaimStatuses]
  · dsimp only
    split
    · exact granted_error _
    · rename_i claim hfind
      have hclaim := hheld claim (List.mem_of_find?_eq_some hfind)
      have hname : claim.agent = agent := by simpa using List.find?_some hfind
      have hidle : ∀ c : RedisCall, c.writes = [] → claimsRedisKey resource ∉ c.writes := by
        intro c hc
        rw [hc]
        exact List.not_mem_nil
      -- the notices leave the claim as it was written
      refine wp_then _ (wp_elsewhere (only_claimNotices hidle _ _ _ _ _) hclaim) ?_
        fun e _ _ => granted_error e
      rintro _ v hkept _ ⟨⟩
      split
      · exact ⟨hname, hnul, core_eq_held rfl hkept⟩
      · exact ⟨hname, hnul, hkept⟩

/-- **A renewal that is returned is held.** -/
theorem wp_renew_grants (leaseTtlSeconds : Option UInt64) :
    Wp lib (Covering lib) (renewClaim lib resource agent leaseTtlSeconds)
      (Granted lib (claimsRedisKey resource) agent) s := by
  unfold renewClaim
  refine wp_load_grants hplain fun loaded t _ hsound => ?_
  refine wp_now fun d => ?_
  dsimp only
  split
  · exact granted_error _
  · rename_i old hold
    refine wp_check_grants fun expiresAt _ => ?_
    have hname : old.agent = agent := by simpa using List.find?_some hold
    generalize hrenewed : ({ old with
      leaseTtlSeconds := max (leaseTtlSeconds.getD (UInt64.ofNat claimTtlSecs)) 1
      timestamp := formatTimestamp (t.wait d).clock
      expiresAt := some expiresAt } : OwnershipClaim) = renewed
    have hagents : (renewFirst renewed loaded).Pairwise fun a b => a.agent ≠ b.agent :=
      agents_congr hsound.agents (map_agent_renewFirst renewed loaded)
    -- The agent of the claim that gave way is still among the agents.
    have hamong : ∃ claim ∈ recomputeClaimStatuses (renewFirst renewed loaded),
        claim.agent = agent := by
      rw [← List.mem_map, map_agent_recompute, map_agent_renewFirst, List.mem_map]
      exact ⟨old, List.mem_of_find?_eq_some hold, hname⟩
    obtain ⟨other, hother, hagent⟩ := hamong
    refine wp_persist_then_grants (List.ne_nil_of_mem hother)
      (agents_congr hagents (map_agent_recompute _)) le_rfl fun u hnul hheld => ?_
    have hsome : ((recomputeClaimStatuses (renewFirst renewed loaded)).find?
        fun claim => claim.agent = agent).isSome := by
      rw [List.find?_isSome]
      exact ⟨other, hother, by simpa using hagent⟩
    obtain ⟨claim, hfind⟩ := Option.isSome_iff_exists.1 hsome
    have hclaim := hheld claim (List.mem_of_find?_eq_some hfind)
    have hclaimed : claim.agent = agent := by simpa using List.find?_some hfind
    refine wp_command fun env _ => ?_
    rintro _ ⟨⟩
    rw [hfind]
    exact ⟨hclaimed, hnul, hclaim.congr (Nat.le_add_right _ _) rfl⟩

end Grants

/-! ### Runs -/

/-- The operation takes the claim of an agent away, or puts another in its place. -/
def ClaimOp.drops (key agent : String) : ClaimOp → Prop
  | .claim resource claimant _ _ | .renew resource claimant _ | .release resource claimant =>
    claimsRedisKey resource = key ∧ claimant = agent
  | .resolve _ _ _ _ | .state _ | .list _ _ => False

/-- The operation gives a claim to an agent. -/
def ClaimOp.grants (key agent : String) : ClaimOp → Prop
  | .claim resource claimant _ _ | .renew resource claimant _ =>
    claimsRedisKey resource = key ∧ claimant = agent
  | .release _ _ | .resolve _ _ _ _ | .state _ | .list _ _ => False

/-- Every lifetime of an operation covers the latest lease. -/
def Lasting (lib : Library) (s : Store) (i : ClaimInput) : Prop :=
  (i.op.program lib).Along (serve lib) (Covered lib) i.env s

section Runs

variable {lib : Library} {key agent : String} {claim : OwnershipClaim} {s : Store}

theorem admitsLoad_elsewhere (hplain : Plain key) {resource : String}
    (hne : key ≠ claimsPrefix ++ resource) :
    AdmitsLoad (fun c => key ∉ c.writes) (claimsPrefix ++ resource) where
  idle c hc := by
    rw [hc]
    exact List.not_mem_nil
  del := by simpa [RedisCall.writes] using hne
  delResolution := by simpa [RedisCall.writes] using hplain.ne_resolution resource
  hdel _ := by simpa [RedisCall.writes] using hne
  expire _ _ := by simpa [RedisCall.writes] using hne

theorem admits_elsewhere (hplain : Plain key) {resource : String}
    (hne : key ≠ claimsRedisKey resource) :
    Admits (fun c => key ∉ c.writes) (claimsRedisKey resource) where
  toAdmitsLoad := admitsLoad_elsewhere hplain hne
  hset _ _ := by simpa [RedisCall.writes] using hne
  resolve _ := by
    have hne := hplain.ne_resolution (claimsKey resource)
    exact fun hmem => hne (List.mem_singleton.1 hmem)
  expireResolution _ := by
    have hne := hplain.ne_resolution (claimsKey resource)
    exact fun hmem => hne (List.mem_singleton.1 hmem)

theorem wp_loadAll_held (hplain : Plain key) (wanted : OwnershipClaim → Bool) {keys : List String}
    (hkeys : ∀ k ∈ keys, Text.startsWith k claimsPrefix = true) (hheld : Held lib key claim s) :
    Wp lib (Covering lib) (loadAll lib wanted keys) (fun _ t => Held lib key claim t) s := by
  induction keys generalizing s with
  | nil => exact hheld
  | cons k keys ih =>
    have hrest : ∀ {t}, Held lib key claim t →
        Wp lib (Covering lib) (loadAll lib wanted keys) (fun _ t => Held lib key claim t) t :=
      ih fun k' hk' => hkeys k' (List.mem_cons_of_mem _ hk')
    have hfirst : Wp lib (Covering lib) (loadActiveClaims lib k)
        (fun _ t => Held lib key claim t) s := by
      by_cases hk : key = k
      · subst hk
        exact wp_mono _ _ _ (fun _ _ h => h.2.1) (wp_load_held hplain hheld)
      · obtain ⟨rest, hrest⟩ := List.isPrefixOf_iff_prefix.1 (hkeys k List.mem_cons_self)
        obtain rfl : k = claimsPrefix ++ String.ofList rest := by
          rw [← String.toList_inj, String.toList_append, String.toList_ofList, hrest]
        exact wp_elsewhere (only_loadActiveClaims lib (admitsLoad_elsewhere hplain hk)) hheld
    refine wp_then _ hfirst (fun claims t hheld => ?_) fun _ _ h => h
    exact wp_then _ (hrest hheld) (fun _ _ h => h) fun _ _ h => h

/-- **An operation that does not drop a claim.** -/
theorem held_perform (hplain : Plain key) (hnul : rejectNulBytes key "claim_key" = .ok ())
    (htidy : Tidy s) (hheld : Held lib key claim s) {i : ClaimInput}
    (hop : ¬i.op.drops key claim.agent) (hlasting : Lasting lib s i) :
    Held lib key claim (s.perform lib i).1 := by
  have halong := hlasting.and (serve lib) (tidy_along htidy i)
  refine run_of_Wp (fun _ t => Held lib key claim t) ?_ halong
  obtain ⟨op, env⟩ := i
  show Wp lib (Covering lib) (op.program lib) _ s
  cases hresource : op.resource? with
  | some resource =>
    by_cases hk : key = claimsRedisKey resource
    · subst hk
      cases op with
      | claim _ claimant priorityArgument options =>
        -- the claim is dropped only by calls of its own agent
        obtain rfl := Option.some.inj hresource
        have hagent : claimant ≠ claim.agent := fun heq => hop ⟨rfl, heq⟩
        exact wp_then _ (wp_claim_held hplain hheld hnul hagent priorityArgument options)
          (fun _ _ h => h) fun _ _ h => h
      | renew _ claimant leaseTtlSeconds =>
        obtain rfl := Option.some.inj hresource
        have hagent : claimant ≠ claim.agent := fun heq => hop ⟨rfl, heq⟩
        exact wp_then _ (wp_renew_held hplain hheld hnul hagent leaseTtlSeconds)
          (fun _ _ h => h) fun _ _ h => h
      | release _ claimant =>
        obtain rfl := Option.some.inj hresource
        have hagent : claimant ≠ claim.agent := fun heq => hop ⟨rfl, heq⟩
        exact wp_then _ (wp_release_held hplain hheld hnul hagent) (fun _ _ h => h)
          fun _ _ h => h
      | resolve _ winner reason resolvedBy =>
        obtain rfl := Option.some.inj hresource
        exact wp_then _ (wp_resolve_held hplain hheld hnul winner reason resolvedBy)
          (fun _ _ h => h) fun _ _ h => h
      | state =>
        obtain rfl := Option.some.inj hresource
        exact wp_then _ (wp_state_held hplain hheld) (fun _ _ h => h) fun _ _ h => h
      | list => cases hresource
    · -- a call on another resource sends nothing to this key
      exact wp_elsewhere (only_program lib hresource (admits_elsewhere hplain hk)) hheld
  | none =>
    cases op with
    | list resourceFilter statusFilter =>
      refine wp_then (fun _ t => Held lib key claim t) ?_ (fun _ _ h => h) fun _ _ h => h
      refine wp_command fun env₀ _ => ?_
      have hwaited : Held lib key claim (s.wait env₀.delay) :=
        hheld.congr (Nat.le_add_right _ _) rfl
      refine wp_then _ (wp_loadAll_held hplain _ (fun k hk => ?_) hwaited) (fun _ _ h => h)
        fun _ _ h => h
      -- a listing loads every key, this one among them
      exact (List.mem_filter.1 hk).2
    | claim => cases hresource
    | renew => cases hresource
    | release => cases hresource
    | resolve => cases hresource
    | state => cases hresource

theorem held_grant (hplain : Plain key) (htidy : Tidy s) {i : ClaimInput}
    (hop : i.op.grants key agent) (hlasting : Lasting lib s i)
    (hreply : (s.perform lib i).2 = .ok (.claim claim)) :
    claim.agent = agent ∧ rejectNulBytes key "claim_key" = .ok () ∧
      Held lib key claim (s.perform lib i).1 := by
  have halong := hlasting.and (serve lib) (tidy_along htidy i)
  suffices hgives : Wp lib (Covering lib) (i.op.program lib)
      (fun r t => r = .ok (ClaimReply.claim claim) → claim.agent = agent ∧
        rejectNulBytes key "claim_key" = .ok () ∧ Held lib key claim t) s from
    run_of_Wp _ hgives halong hreply
  have hresult : ∀ {p : Claiming OwnershipClaim},
      Wp lib (Covering lib) p (Granted lib key agent) s →
      Wp lib (Covering lib) (p >>= fun claim => pure (.claim claim))
        (fun r t => r = .ok (ClaimReply.claim claim) → claim.agent = agent ∧
          rejectNulBytes key "claim_key" = .ok () ∧ Held lib key claim t) s := by
    intro p hp
    refine wp_then _ hp ?_ ?_
    · rintro given t hgranted hgiven
      obtain rfl : given = claim := by injection Except.ok.inj hgiven
      exact hgranted given rfl
    · rintro e t - he
      cases he
  obtain ⟨op, env⟩ := i
  show Wp lib (Covering lib) (op.program lib) _ s
  cases op with
  | claim resource claimant priorityArgument options =>
    -- of the operations only these two grant a claim
    obtain ⟨rfl, rfl⟩ := hop
    exact hresult (wp_claim_grants hplain priorityArgument options)
  | renew resource claimant leaseTtlSeconds =>
    obtain ⟨rfl, rfl⟩ := hop
    exact hresult (wp_renew_grants hplain leaseTtlSeconds)
  | release => cases hop
  | resolve => cases hop
  | state => cases hop
  | list => cases hop

/-- The claims a load gives are those it reads. -/
theorem load_value (lib : Library) (key : String) (env : Nat → CallEnv) (s : Store) :
    ((loadActiveClaims lib key).run (serve lib) .panicked env s).2 =
      .ok (sortClaims (activeClaims lib
        ((((s.wait (env 0).delay).wait (env 1).delay).visible key).map Table.rows |>.getD [])
        (s.wait (env 0).delay).clock)) := by
  -- what the hash shows is named, so that the loading is a computation on it
  generalize hall : ((((s.wait (env 0).delay).wait (env 1).delay).visible key).map
    Table.rows |>.getD []) = all
  have hrun : (loadActiveClaims lib key).run (serve lib) .panicked env s =
      (if all = [] then pure [] else do
        hdelExpired key (expiredAgents lib all (s.wait (env 0).delay).clock)
        refreshClaims key (activeClaims lib all (s.wait (env 0).delay).clock)
          (s.wait (env 0).delay).clock : Claiming (List OwnershipClaim)).run (serve lib) .panicked
        (fun n => env (n + 2)) ((s.wait (env 0).delay).wait (env 1).delay) := by
    subst hall
    rfl
  rw [hrun]
  refine run_of_Wp (C := fun _ _ _ => True) (fun r _ => r = .ok (sortClaims
    (activeClaims lib all (s.wait (env 0).delay).clock))) ?_ (along_of_forall fun _ _ _ => trivial)
  split
  · -- an empty hash sends nothing more
    rename_i hnone
    show Except.ok [] = Except.ok (sortClaims (activeClaims lib all _))
    rw [hnone, activeClaims_nil, sortClaims_nil]
  · refine wp_then (fun r _ => r = .ok ()) (wp_hdelExpired (fun _ => rfl) fun _ _ _ => rfl) ?_
      fun _ _ he => by cases he
    intro _ u _
    refine wp_refreshClaims (fun hnone _ _ => ?_) fun _ _ _ => rfl
    rw [hnone, sortClaims_nil]

theorem held_exec (hplain : Plain key) (hnul : rejectNulBytes key "claim_key" = .ok ())
    {is : List ClaimInput} (hkept : ∀ i ∈ is, ¬i.op.drops key claim.agent) :
    ∀ {s : Store}, Tidy s → Held lib key claim s → (claimBus lib).Meets (Lasting lib) s is →
      Held lib key claim ((claimBus lib).exec s is).1 := by
  induction is with
  | nil => exact fun _ hheld _ => hheld
  | cons i is ih =>
    intro s htidy hheld hmeets
    rw [Machine.exec_cons]
    refine ih (fun j hj => hkept j (List.mem_cons_of_mem _ hj)) (tidy_perform htidy i) ?_ hmeets.2
    exact held_perform hplain hnul htidy hheld (hkept i List.mem_cons_self) hmeets.1

/-- **A lease is kept.**  A claim that an operation gives is found by every load before its lease
ends, unless its agent claims, renews or releases the resource again. -/
theorem load_finds {resource : String} (hplain : Plain (claimsRedisKey resource))
    {before after : List ClaimInput} {grant : ClaimInput}
    (hgrant : grant.op.grants (claimsRedisKey resource) agent)
    (hlasting : (claimBus lib).Meets (Lasting lib) ((claimBus lib).exec {} before).1
      (grant :: after))
    (hreply : (((claimBus lib).exec {} before).1.perform lib grant).2 = .ok (.claim claim))
    (hkept : ∀ i ∈ after, ¬i.op.drops (claimsRedisKey resource) agent) {E : Int}
    (hE : expiry lib claim = some E) (env : Nat → CallEnv)
    (ht : ((((claimBus lib).exec {} (before ++ grant :: after)).1.clock + (env 0).delay +
      (env 1).delay : Nat) : Int) < E) :
    ∃ claims, ((loadActiveClaims lib (claimsRedisKey resource)).run (serve lib) .panicked env
        ((claimBus lib).exec {} (before ++ grant :: after)).1).2 = .ok claims ∧
      ∃ same ∈ claims, core same = core claim := by
  have hbefore : Tidy ((claimBus lib).exec {} before).1 := tidy_exec tidy_empty before
  obtain ⟨hagent, hnul, hheld⟩ := held_grant hplain hbefore hgrant hlasting.1 hreply
  -- the grant has written the claim, and no later call has dropped it
  have hlast : Held lib (claimsRedisKey resource) claim
      ((claimBus lib).exec {} (before ++ grant :: after)).1 := by
    rw [Machine.exec_append, Machine.exec_cons]
    refine held_exec hplain hnul ?_ (tidy_perform hbefore grant) hheld hlasting.2
    rw [hagent]
    exact hkept
  -- nothing below looks into the run
  generalize ((claimBus lib).exec {} (before ++ grant :: after)).1 = s at ht hlast
  rw [load_value]
  have hread : Held lib (claimsRedisKey resource) claim
      ((s.wait (env 0).delay).wait (env 1).delay) :=
    hlast.congr ((Nat.le_add_right _ _).trans (Nat.le_add_right _ _)) rfl
  obtain ⟨same, -, hshows⟩ := hread E hE _ le_rfl ht
  obtain ⟨hash, hvisible, -⟩ := hshows.visible le_rfl
  obtain ⟨same, hmem, hcore⟩ := hread.active (Nat.le_add_right _ _) hvisible hE ht
  rw [hvisible]
  exact ⟨_, rfl, same, mem_sortClaims.2 hmem, hcore⟩

/-- **The lifetimes of claims.**  The lifetime that is set on a hash reaches the end of its latest
lease exactly where it covers it; and in a run whose lifetimes all do, a claim that was given is
found until its lease ends. -/
theorem claim_lifetimes (lib : Library) :
    (∀ (s : Store) (key : String) (h : Hash) (claims : List OwnershipClaim) (now : Nat) (E : Int),
      s.visible key = some h → Latest lib claims E → (now : Int) < E →
      ((∀ t : Nat, s.clock ≤ t → (t : Int) < E → ∃ slot,
          (s.expire key (claimsHashTtlSeconds lib claims now)).hashes key = some slot ∧
            Lasts slot (t / 1000000)) ↔
        Covers now s.clock E)) ∧
    ∀ (resource agent : String) (before after : List ClaimInput) (grant : ClaimInput)
      (claim : OwnershipClaim) (E : Int) (env : Nat → CallEnv),
      Plain (claimsRedisKey resource) →
      grant.op.grants (claimsRedisKey resource) agent →
      (claimBus lib).Meets (Lasting lib) ((claimBus lib).exec {} before).1 (grant :: after) →
      (((claimBus lib).exec {} before).1.perform lib grant).2 = .ok (.claim claim) →
      (∀ i ∈ after, ¬i.op.drops (claimsRedisKey resource) agent) →
      expiry lib claim = some E →
      ((((claimBus lib).exec {} (before ++ grant :: after)).1.clock + (env 0).delay +
        (env 1).delay : Nat) : Int) < E →
      ∃ claims, ((loadActiveClaims lib (claimsRedisKey resource)).run (serve lib) .panicked env
          ((claimBus lib).exec {} (before ++ grant :: after)).1).2 = .ok claims ∧
        ∃ same ∈ claims, core same = core claim :=
  ⟨fun _ _ _ _ _ _ hvisible hlatest hlater => expire_covers_iff hvisible hlatest hlater,
    fun _ _ _ _ _ _ _ env hplain hgrant hlasting hreply hkept hE ht =>
      load_finds hplain hgrant hlasting hreply hkept hE env ht⟩

end Runs

/-! ### Two leases -/

/-- The claim of a reply. -/
def ClaimReply.held? : ClaimReply → Option OwnershipClaim
  | .claim given => some given
  | .state _ | .claims _ => none

/-- A claim of so many seconds, with so many nanoseconds before each command. -/
def leaseBy (resource agent argument : String) (seconds : UInt64) (delay : Nat) : ClaimInput where
  op := .claim resource agent argument
    { mode := .exclusive
      leaseNamespace := none
      scopeKind := none
      scopePath := none
      repoScopes := []
      threadId := none
      leaseTtlSeconds := seconds
      scope := none }
  env _ := ⟨delay, []⟩

def leaseOf (seconds : UInt64) (delay : Nat) : ClaimInput := leaseBy "x" "a" "first" seconds delay

/-- When the claim ends that is granted. -/
def leaseEnd (seconds : UInt64) (delay : Nat) : Option Int :=
  (((Store.perform sampleLibrary {} (leaseOf seconds delay)).2.toOption.bind
    ClaimReply.held?).filter (·.status = .granted)).bind (expiry sampleLibrary)

instance (now sent : Nat) (E : Int) : Decidable (Covers now sent E) :=
  inferInstanceAs (Decidable (_ ∨ _ ∧ _))

/-- A lifetime that covers the lease of every claim. -/
def coversAll (lib : Library) : RedisCall → CallEnv → Store → Bool
  | .expireClaims _ claims now, env, s =>
    (claims.filterMap (expiry lib)).all fun E => decide (E ≤ now ∨ Covers now (s.clock + env.delay) E)
  | _, _, _ => true

theorem covered_of_coversAll {lib : Library} {c : RedisCall} {env : CallEnv} {s : Store}
    (h : coversAll lib c env s = true) : Covered lib c env s := by
  cases c with
  | expireClaims key claims now =>
    rintro E ⟨⟨claim, hclaim, hE⟩, -⟩ hlater
    have hcovers := List.all_eq_true.1 h E (List.mem_filterMap.2 ⟨claim, hclaim, hE⟩)
    exact (of_decide_eq_true hcovers).resolve_left (by omega)
  | _ => trivial

theorem lasting_of_coversAll {lib : Library} {s : Store} {i : ClaimInput}
    (h : (i.op.program lib).testsAlong (serve lib) (coversAll lib) i.env s = true) :
    Lasting lib s i :=
  Along.mono (serve lib) (fun _ _ _ => covered_of_coversAll) (along_of_testsAlong (serve lib) h)

/-- When a load that comes after the claim reads the hash, and how many claims it finds. -/
def foundAfter (seconds : UInt64) (delay wait : Nat) : Nat × Option Nat :=
  let s := (Store.perform sampleLibrary {} (leaseOf seconds delay)).1
  (s.clock + wait + wait,
    ((loadActiveClaims sampleLibrary (claimsRedisKey "x")).run (Store.serve sampleLibrary)
      .panicked (fun _ => ⟨wait, []⟩) s).2.toOption.map List.length)

/-- A claim of another resource by another agent. -/
def leaseOther : ClaimInput := leaseBy "y" "b" "second" 60 0

theorem lease_kept :
    leaseEnd 60 0 = some 60000000000 ∧
      (((leaseOf 60 0).op.program sampleLibrary).testsAlong (serve sampleLibrary)
        (coversAll sampleLibrary) (leaseOf 60 0).env {} = true) ∧
      ((leaseOther.op.program sampleLibrary).testsAlong (serve sampleLibrary)
        (coversAll sampleLibrary) leaseOther.env
        (Store.perform sampleLibrary {} (leaseOf 60 0)).1 = true) ∧
      ((claimBus sampleLibrary).exec {} [leaseOf 60 0, leaseOther]).1.clock = 0 := by
  decide +kernel

theorem plain_x : Plain (claimsRedisKey "x") := by
  refine ⟨"x", by decide, fun other hother => ?_⟩
  have hlength := congrArg String.length hother
  rw [claimResolutionKey, String.length_append] at hlength
  have hsuffix : ":resolution".length = 11 := by decide
  have hname : "x".length = 1 := by decide
  omega

/-- A lease of a minute, of which twice twenty seconds pass, is found though another resource is
claimed in between. -/
theorem claim_lifetimes_kept :
    ∃ claim claims, (Store.perform sampleLibrary {} (leaseOf 60 0)).2 = .ok (.claim claim) ∧
      ((loadActiveClaims sampleLibrary (claimsRedisKey "x")).run (serve sampleLibrary) .panicked
        (fun _ => ⟨20000000000, []⟩)
        ((claimBus sampleLibrary).exec {} [leaseOf 60 0, leaseOther]).1).2 = .ok claims ∧
      ∃ same ∈ claims, core same = core claim := by
  obtain ⟨hend, hfirst, hsecond, hclock⟩ := lease_kept
  obtain ⟨claim, hclaim, hE⟩ := Option.bind_eq_some_iff.1 hend
  obtain ⟨hclaim, -⟩ := Option.filter_eq_some_iff.1 hclaim
  obtain ⟨reply, hreply, hheld⟩ := Option.bind_eq_some_iff.1 hclaim
  have hanswer : (Store.perform sampleLibrary {} (leaseOf 60 0)).2 = .ok (.claim claim) := by
    generalize (Store.perform sampleLibrary {} (leaseOf 60 0)).2 = result at hreply ⊢
    cases result with
    | error e => cases hreply
    | ok given =>
      obtain rfl : given = reply := Option.some.inj hreply
      cases given with
      | claim given =>
        obtain rfl := Option.some.inj hheld
        rfl
      | _ => cases hheld
  -- forty seconds of waiting are within the lease
  have hlater : ((((claimBus sampleLibrary).exec {} [leaseOf 60 0, leaseOther]).1.clock +
      20000000000 + 20000000000 : Nat) : Int) < 60000000000 := by
    rw [hclock]
    decide
  have hdrops : ∀ i ∈ [leaseOther], ¬i.op.drops (claimsRedisKey "x") "a" := by
    have hname : "b" ≠ "a" := by decide
    intro i hi
    rw [List.mem_singleton.1 hi]
    exact fun hdrop => hname hdrop.2
  obtain ⟨claims, hclaims, hsame⟩ := (claim_lifetimes sampleLibrary).2 "x" "a" [] [leaseOther]
    (leaseOf 60 0) claim 60000000000 (fun _ => ⟨20000000000, []⟩) plain_x ⟨rfl, rfl⟩
    ⟨lasting_of_coversAll hfirst, lasting_of_coversAll hsecond, trivial⟩ hanswer hdrops hE hlater
  exact ⟨claim, claims, hanswer, hclaims, hsame⟩

/-- A lease of a second is gone at once, and one of a minute before its last second. -/
theorem lifetimes_cut :
    leaseEnd 1 1001 = some 1000001000 ∧ foundAfter 1 1001 1001 = (9009, some 0) ∧
      leaseEnd 60 1001 = some 60000001000 ∧
      foundAfter 60 1001 29800000000 = (59600007007, some 0) := by
  decide +kernel

end AgentHub.Channels
