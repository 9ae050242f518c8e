import AgentHub.Channels.Equiv.Frame
import AgentHub.Channels.Equiv.Lease

/-!
# What a listing removes

`list_claims` loads every key it comes by, the resolutions among them.  A load removes the texts of
expired claims, and the whole key where it finds no other claim in it or where less than a second is
left of the longest lease.
-/

namespace AgentHub.Channels

open AgentHub.Validation AgentHub.Outbox AgentHub.Hub Program Store

section Listing

variable (lib : Library)

/-- A text that reads as a claim whose lease has not ended. -/
def Unexpired (text : String) (t : Nat) : Prop :=
  ∃ claim E, lib.readClaim text = some claim ∧ expiry lib claim = some E ∧ (t : Int) < E

/-- Some keys may have been read.  Every claim under them is found as long as it was before its
lease ends, and nothing new is; the other keys are as they were. -/
structure Spared (keys : List String) (s t : Store) : Prop where
  clock : s.clock ≤ t.clock
  others : ∀ k, k ∉ keys → t.hashes k = s.hashes k
  kept : ∀ k f T, t.clock ≤ T → s.Shows k f T → Unexpired lib f.2 T → t.Shows k f T
  added : ∀ k, ∀ f ∈ t.fields k, f ∈ s.fields k

/-- Every hash that is loaded has an active claim, and the lifetime it is given covers the latest
lease. -/
def LoadsClaims : RedisCall → CallEnv → Store → Prop
  | .hgetall key, env, s => ∀ h, (s.wait env.delay).visible key = some h → h.rows ≠ [] →
    activeClaims lib h.rows s.clock ≠ []
  | .expireClaims key claims now, env, s => Covered lib (.expireClaims key claims now) env s
  | _, _, _ => True

/-- What a listing does after its `SCAN`. -/
def listScanned (resourceFilter : Option String) (statusFilter : Option ClaimStatus)
    (keys : List String) : Claiming ClaimReply := do
  let claims ← (do
    let claims ← loadAll lib
      (fun claim => resourceFilter.all (· = claim.resource) && statusFilter.all (· = claim.status))
      keys
    return sortClaims claims)
  return .claims claims

variable {lib}

theorem Spared.refl (keys : List String) (s : Store) : Spared lib keys s s where
  clock := le_rfl
  others _ _ := rfl
  kept _ _ _ _ hf _ := hf
  added _ _ hf := hf

theorem Spared.trans {keys : List String} {s t u : Store} (h : Spared lib keys s t)
    (h' : Spared lib keys t u) : Spared lib keys s u where
  clock := h.clock.trans h'.clock
  others k hk := (h'.others k hk).trans (h.others k hk)
  kept k f T hT hf hlive := h'.kept k f T hT (h.kept k f T (h'.clock.trans hT) hf hlive) hlive
  added k f hf := h.added k f (h'.added k f hf)

theorem Spared.mono {keys more : List String} {s t : Store} (h : Spared lib keys s t)
    (hmore : ∀ k ∈ keys, k ∈ more) : Spared lib more s t where
  clock := h.clock
  others k hk := h.others k fun hmem => hk (hmore k hmem)
  kept := h.kept
  added := h.added

/-- A state that differs in the time only. -/
theorem Spared.of_hashes {keys : List String} {s t : Store} (hclock : s.clock ≤ t.clock)
    (hhashes : t.hashes = s.hashes) : Spared lib keys s t where
  clock := hclock
  others k _ := congrFun hhashes k
  kept k f T _ hf _ := hf.congr (congrFun hhashes k)
  added k f hf := by rwa [fields_congr (congrFun hhashes k)] at hf

/-- `HDEL` of the claims that have expired. -/
theorem Spared.hdel {key : String} {s : Store} {h : Hash} {now : Nat}
    (hvisible : s.visible key = some h) (hnow : now ≤ s.clock) (d : Nat) :
    Spared lib [key] s ((s.wait d).hdel key (expiredAgents lib h.rows now)) where
  clock := by
    rw [hdel_clock]
    exact Nat.le_add_right _ _
  others k hk := hdel_other (by simpa using hk)
  kept k f T hT hf hlive := by
    rw [hdel_clock] at hT
    have hwaited : (s.wait d).Shows k f T := hf
    by_cases hk : k = key
    · subst hk
      -- the claim that expired is the one that is read from this field
      refine hwaited.hdel hT fun hagent => ?_
      obtain ⟨g, hg, hname, claim, hread, hexpired⟩ := mem_expiredAgents.1 hagent
      have hmem := hf.mem_fields
      rw [fields_of_visible hvisible] at hmem
      obtain rfl := h.eq_of_key hg hmem hname
      obtain ⟨claim', E, hread', hE, hlater⟩ := hlive
      obtain rfl : claim = claim' := Option.some.inj (hread.symm.trans hread')
      obtain ⟨E', hE', hpast⟩ := claimExpired_iff.1 hexpired
      obtain rfl : E = E' := Option.some.inj (hE.symm.trans hE')
      rw [wait_clock] at hT
      omega
    · exact hwaited.congr (hdel_other hk)
  added k f hf := by
    have hmem := mem_fields_hdel hf
    exact hmem

/-- `EXPIRE` that covers the claims that are left. -/
theorem Spared.expire {key : String} {s u : Store} {h : Hash} {now : Nat} {env : CallEnv}
    (hfields : s.fields key = h.rows) (hu : Spared lib [key] s u) (hnow : now ≤ u.clock)
    (hcovered : Covered lib (.expireClaims key (sortClaims (activeClaims lib h.rows now)) now) env
      u) :
    Spared lib [key] s ((u.wait env.delay).expire key
      (claimsHashTtlSeconds lib (sortClaims (activeClaims lib h.rows now)) now)) where
  clock := by
    rw [expire_clock]
    exact hu.clock.trans (Nat.le_add_right _ _)
  others k hk := (expire_other (by simpa using hk)).trans (hu.others k hk)
  kept k f T hT hf hlive := by
    rw [expire_clock] at hT
    have hthere : (u.wait env.delay).Shows k f T :=
      hu.kept k f T ((Nat.le_add_right _ _).trans hT) hf hlive
    by_cases hk : k = key
    · subst hk
      obtain ⟨claim, E, hread, hE, hlater⟩ := hlive
      -- a claim that outlasts the call had not expired at its beginning
      have hopen : claimExpired lib claim now = false := by
        rw [Bool.eq_false_iff]
        intro hexpired
        obtain ⟨E', hE', hpast⟩ := claimExpired_iff.1 hexpired
        obtain rfl : E = E' := Option.some.inj (hE.symm.trans hE')
        rw [wait_clock] at hT
        omega
      have hmem : f ∈ h.rows := by
        rw [← hfields]
        exact hf.mem_fields
      have hactive : claim ∈ sortClaims (activeClaims lib h.rows now) :=
        mem_sortClaims.2 (mem_activeClaims.2 ⟨f, hmem, hread, hopen⟩)
      -- the deadline of the hash is that of the claim that ends last
      obtain ⟨last, hlast, hle⟩ := exists_latest hactive hE
      have hopenLast : (now : Int) < last := by
        rw [wait_clock] at hT
        omega
      exact hthere.expire hlast hopenLast (hcovered last hlast hopenLast) hT (hlater.trans_le hle)
    · exact hthere.congr (expire_other hk)
  added k f hf := by
    have hmem := mem_fields_expire hf
    exact hu.added k f hmem

/-- **A load of a hash with an active claim.** -/
theorem wp_load_spares {key : String} {s : Store} :
    Wp lib (LoadsClaims lib) (loadActiveClaims lib key) (fun _ t => Spared lib [key] s t) s := by
  refine wp_loadActiveClaims (fun t hclock hhashes _ => .of_hashes hclock hhashes) ?_
  intro t env h hclock hhashes hloads hvisible hrows
  have hactive := hloads h hvisible hrows
  have hread : Spared lib [key] s (t.wait env.delay) :=
    .of_hashes (hclock.trans (Nat.le_add_right _ _)) hhashes
  have hnow : t.clock ≤ (t.wait env.delay).clock := Nat.le_add_right _ _
  have hfields : s.fields key = h.rows := by
    rw [← fields_of_visible hvisible]
    exact fields_congr (congrFun hhashes key).symm
  refine wp_then (fun r u => r = .ok () ∧ t.clock ≤ u.clock ∧ Spared lib [key] s u)
    (wp_hdelExpired (fun _ => ⟨rfl, hnow, hread⟩) ?_) ?_ ?_
  · intro _ env₁ _
    refine ⟨rfl, ?_, hread.trans (.hdel hvisible hnow env₁.delay)⟩
    rw [hdel_clock]
    exact hnow.trans (Nat.le_add_right _ _)
  · rintro _ u ⟨-, hlater, hu⟩
    refine wp_refreshClaims (fun hnone => absurd hnone hactive) ?_
    intro _ env₂ hcovered
    exact hu.expire hfields hlater hcovered
  · rintro e u ⟨he, -⟩
    cases he

theorem wp_loadAll_spares (wanted : OwnershipClaim → Bool) (keys : List String) {s : Store} :
    Wp lib (LoadsClaims lib) (loadAll lib wanted keys) (fun _ t => Spared lib keys s t) s := by
  induction keys generalizing s with
  | nil => exact .refl [] s
  | cons key keys ih =>
    have hhead : ∀ k ∈ [key], k ∈ key :: keys := by simp
    have htail : ∀ k ∈ keys, k ∈ key :: keys := fun k => List.mem_cons_of_mem key
    refine wp_then _ wp_load_spares (fun claims t hfirst => ?_) fun e t hfirst => hfirst.mono hhead
    exact wp_then _ ih (fun rest u hrest => (hfirst.mono hhead).trans (hrest.mono htail))
      fun e u hrest => (hfirst.mono hhead).trans (hrest.mono htail)

theorem perform_list (resourceFilter : Option String) (statusFilter : Option ClaimStatus)
    (env : Nat → CallEnv) (s : Store) :
    s.perform lib ⟨.list resourceFilter statusFilter, env⟩ =
      (listScanned lib resourceFilter statusFilter
        ((env 0).scanned.filter fun key => Text.startsWith key claimsPrefix)).run (serve lib)
        .panicked (fun n => env (n + 1)) (s.wait (env 0).delay) := rfl

/-- **A listing that comes by claims only** spares them all, and changes no key that its `SCAN` does
not return. -/
theorem list_spares (resourceFilter : Option String) (statusFilter : Option ClaimStatus)
    {env : Nat → CallEnv} {s : Store}
    (h : ((ClaimOp.list resourceFilter statusFilter).program lib).Along (serve lib)
      (LoadsClaims lib) env s) :
    Spared lib (env 0).scanned s (s.perform lib ⟨.list resourceFilter statusFilter, env⟩).1 := by
  rw [perform_list]
  have hrest := h.2 _ rfl
  have hwaited : Spared lib (env 0).scanned s (s.wait (env 0).delay) :=
    .of_hashes (Nat.le_add_right _ _) rfl
  have hkeys : ∀ k ∈ (env 0).scanned.filter fun key => Text.startsWith key claimsPrefix,
      k ∈ (env 0).scanned := fun k hk => (List.mem_filter.1 hk).1
  refine run_of_Wp (fun _ t => Spared lib (env 0).scanned s t) ?_ hrest
  refine wp_then (fun _ t => Spared lib (env 0).scanned s t) ?_ (fun _ _ ht => ht) fun _ _ ht => ht
  refine wp_then _ (wp_loadAll_spares _ _) ?_ ?_
  · exact fun claims t ht => hwaited.trans (ht.mono hkeys)
  · exact fun e t ht => hwaited.trans (ht.mono hkeys)

/-! ### Resolutions -/

/-- A later state, in which a key has the hash it had or none. -/
structure StaysOrGone (s t : Store) (k : String) : Prop where
  clock : s.clock ≤ t.clock
  hash : t.hashes k = s.hashes k ∨ t.hashes k = none

theorem StaysOrGone.trans {s t u : Store} {k : String} (h : StaysOrGone s t k)
    (h' : StaysOrGone t u k) : StaysOrGone s u k where
  clock := h.clock.trans h'.clock
  hash := by
    rcases h'.hash with heq | hnone
    · rw [heq]
      exact h.hash
    · exact .inr hnone

theorem visible_none_of_hashes {t : Store} {k : String} (h : t.hashes k = none) :
    t.visible k = none := by
  simp [visible, readKey, h]

/-- What is not to be seen does not come back. -/
theorem StaysOrGone.visible_none {s t : Store} {k : String} (h : StaysOrGone s t k)
    (hs : s.visible k = none) : t.visible k = none := by
  rcases h.hash with heq | hnone
  · by_contra hseen
    obtain ⟨hash, hhash⟩ := Option.ne_none_iff_exists'.1 hseen
    obtain ⟨slot, hslot, hvalue, hlasts⟩ := visible_eq_some.1 hhash
    have hearlier : s.visible k = some hash := by
      refine visible_eq_some.2 ⟨slot, heq ▸ hslot, hvalue, fun deadline hdeadline => ?_⟩
      exact (Nat.div_le_div_right h.clock).trans (hlasts deadline hdeadline)
    rw [hs] at hearlier
    cases hearlier
  · exact visible_none_of_hashes hnone

/-- A hash with fields, none of which reads as a claim. -/
def Unreadable (lib : Library) (s : Store) (k : String) : Prop :=
  s.fields k ≠ [] ∧ ∀ f ∈ s.fields k, lib.readClaim f.2 = none

theorem no_claims_of_unreadable {all : List (String × String)} (now : Nat)
    (h : ∀ f ∈ all, lib.readClaim f.2 = none) :
    expiredAgents lib all now = [] ∧ activeClaims lib all now = [] := by
  constructor
  · refine List.eq_nil_iff_forall_not_mem.2 fun agent hagent => ?_
    obtain ⟨f, hf, -, claim, hread, -⟩ := mem_expiredAgents.1 hagent
    rw [h f hf] at hread
    cases hread
  · refine List.eq_nil_iff_forall_not_mem.2 fun claim hclaim => ?_
    obtain ⟨f, hf, hread, -⟩ := mem_activeClaims.1 hclaim
    rw [h f hf] at hread
    cases hread

theorem del_stays (s : Store) (key k : String) : StaysOrGone s (s.del key) k where
  clock := le_rfl
  hash := by
    by_cases hk : k = key
    · subst hk
      exact .inr setKey_self
    · exact .inl (setKey_other hk)

theorem wait_stays (s : Store) (d : Nat) (k : String) : StaysOrGone s (s.wait d) k where
  clock := Nat.le_add_right _ _
  hash := .inl rfl

/-- A load leaves another key alone, or deletes it as the resolution. -/
theorem wp_load_stays {C : RedisCall → CallEnv → Store → Prop} {s : Store} {key k : String}
    (hk : k ≠ key) :
    Wp lib C (loadActiveClaims lib key)
      (fun r t => (∃ claims, r = .ok claims) ∧ StaysOrGone s t k) s := by
  refine wp_loadActiveClaims
    (fun t hclock hhashes _ => ⟨⟨_, rfl⟩, hclock, .inl (congrFun hhashes k)⟩) ?_
  intro t env h hclock hhashes _ _ _
  have hread : StaysOrGone s (t.wait env.delay) k :=
    ⟨hclock.trans (Nat.le_add_right _ _), .inl (congrFun hhashes k)⟩
  refine wp_then (fun r u => r = .ok () ∧ StaysOrGone s u k)
    (wp_hdelExpired (fun _ => ⟨rfl, hread⟩) ?_) ?_ ?_
  rotate_left
  · rintro _ u ⟨-, hu⟩
    refine wp_refreshClaims (fun _ d e => ?_) (fun _ env₂ _ => ?_)
    · exact ⟨⟨_, rfl⟩, ((hu.trans (wait_stays _ _ _)).trans (del_stays _ _ _)).trans
        ((wait_stays _ _ _).trans (del_stays _ _ _))⟩
    · exact ⟨⟨_, rfl⟩, (hu.trans (wait_stays _ env₂.delay _)).trans
        ⟨by rw [expire_clock], .inl (expire_other hk)⟩⟩
  · rintro e u ⟨he, -⟩
    cases he
  · intro _ env₁ _
    exact ⟨rfl, (hread.trans (wait_stays _ env₁.delay _)).trans
      ⟨by rw [hdel_clock], .inl (hdel_other hk)⟩⟩

/-- A load of a hash that holds no claim deletes it. -/
theorem wp_load_gone {C : RedisCall → CallEnv → Store → Prop} {s : Store} {k : String}
    (h : s.hashes k = none ∨ Unreadable lib s k) :
    Wp lib C (loadActiveClaims lib k)
      (fun r t => (∃ claims, r = .ok claims) ∧ StaysOrGone s t k ∧ t.visible k = none) s := by
  refine wp_loadActiveClaims ?_ ?_
  · intro t hclock hhashes hempty
    -- a hash that was seen would have been read
    refine ⟨⟨_, rfl⟩, ⟨hclock, .inl (congrFun hhashes k)⟩, ?_⟩
    by_contra hseen
    obtain ⟨hash, hhash⟩ := Option.ne_none_iff_exists'.1 hseen
    have hfields := fields_of_visible hhash
    rw [hempty hash hhash, fields_congr (congrFun hhashes k)] at hfields
    rcases h with hnone | ⟨hsome, -⟩
    · rw [visible_none_of_hashes (congrFun hhashes k ▸ hnone)] at hhash
      cases hhash
    · exact hsome hfields
  · intro t env hash hclock hhashes _ hvisible _
    have hfields : s.fields k = hash.rows := by
      rw [← fields_of_visible hvisible]
      exact (fields_congr (congrFun hhashes k)).symm
    have hread : ∀ f ∈ hash.rows, lib.readClaim f.2 = none := by
      rcases h with hnone | ⟨-, hread⟩
      · have hgone := visible_none_of_hashes (t := t.wait env.delay) (k := k)
          ((congrFun hhashes k).trans hnone)
        rw [hgone] at hvisible
        cases hvisible
      · rwa [hfields] at hread
    obtain ⟨hexpired, hactive⟩ := no_claims_of_unreadable t.clock hread
    rw [hexpired, hactive]
    show Wp lib C (refreshClaims k [] t.clock) _ _
    -- no entry can be read, so the hash is deleted as one without claims
    refine wp_refreshClaims (fun _ d e => ?_) (fun hne => absurd rfl hne)
    have hstart : StaysOrGone s (t.wait env.delay) k :=
      ⟨hclock.trans (Nat.le_add_right _ _), .inl (congrFun hhashes k)⟩
    have hdel : (((t.wait env.delay).wait d).del k).visible k = none :=
      visible_none_of_hashes setKey_self
    have hlast := (wait_stays (((t.wait env.delay).wait d).del k) e k).trans
      (del_stays _ (claimResolutionKey k) k)
    exact ⟨⟨_, rfl⟩, ((hstart.trans (wait_stays _ d _)).trans (del_stays _ k _)).trans hlast,
      hlast.visible_none hdel⟩

theorem wp_loadAll_gone {C : RedisCall → CallEnv → Store → Prop} (wanted : OwnershipClaim → Bool)
    {k : String} {keys : List String} {s : Store}
    (h : s.hashes k = none ∨ Unreadable lib s k) :
    Wp lib C (loadAll lib wanted keys)
      (fun r t => (∃ claims, r = .ok claims) ∧ StaysOrGone s t k ∧
        (k ∈ keys → t.visible k = none)) s := by
  induction keys generalizing s with
  | nil => exact ⟨⟨_, rfl⟩, ⟨le_rfl, .inl rfl⟩, by simp⟩
  | cons key keys ih =>
    have hfirst : Wp lib C (loadActiveClaims lib key)
        (fun r t => (∃ claims, r = .ok claims) ∧ StaysOrGone s t k ∧
          (k = key → t.visible k = none)) s := by
      -- the key is loaded once, wherever it stands in the list
      by_cases hk : k = key
      · subst hk
        exact wp_mono _ _ _ (fun r t ht => ⟨ht.1, ht.2.1, fun _ => ht.2.2⟩) (wp_load_gone h)
      · exact wp_mono _ _ _ (fun r t ht => ⟨ht.1, ht.2, fun heq => absurd heq hk⟩)
          (wp_load_stays hk)
    refine wp_then _ hfirst ?_ ?_
    rotate_left
    · rintro e t ⟨⟨claims, he⟩, -⟩
      cases he
    rintro claims t ⟨-, hstays, hgone⟩
    -- what is left of the hash is as unreadable as before
    have hnext : t.hashes k = none ∨ Unreadable lib t k := by
      rcases hstays.hash with heq | hnone
      · unfold Unreadable
        rw [heq, fields_congr heq]
        exact h
      · exact .inl hnone
    refine wp_then _ (ih hnext) ?_ ?_
    rotate_left
    · rintro e u ⟨⟨rest, he⟩, -⟩
      cases he
    rintro rest u ⟨-, hrest, hvisible⟩
    refine ⟨⟨_, rfl⟩, hstays.trans hrest, fun hmem => ?_⟩
    rcases List.mem_cons.1 hmem with heq | hmem
    · exact hrest.visible_none (hgone heq)
    · exact hvisible hmem

/-- **A listing deletes every resolution it comes by.** -/
theorem list_gone (resourceFilter : Option String) (statusFilter : Option ClaimStatus)
    {env : Nat → CallEnv} {s : Store} {k : String} (h : Unreadable lib s k)
    (hstarts : Text.startsWith k claimsPrefix = true) (hscan : k ∈ (env 0).scanned) :
    (s.perform lib ⟨.list resourceFilter statusFilter, env⟩).1.visible k = none := by
  rw [perform_list]
  have hstart : (s.wait (env 0).delay).hashes k = none ∨
      Unreadable lib (s.wait (env 0).delay) k := .inr h
  have hkeys : k ∈ (env 0).scanned.filter fun key => Text.startsWith key claimsPrefix :=
    List.mem_filter.2 ⟨hscan, hstarts⟩
  refine run_of_Wp (fun _ t => t.visible k = none) ?_
    (along_of_forall (C := fun _ _ _ => True) fun _ _ _ => trivial)
  refine wp_then (fun _ t => t.visible k = none) ?_ (fun _ _ ht => ht) fun _ _ ht => ht
  refine wp_then _ (wp_loadAll_gone _ hstart) ?_ ?_
  · exact fun claims t ht => ht.2.2 hkeys
  · exact fun e t ht => ht.2.2 hkeys

end Listing

end AgentHub.Channels
