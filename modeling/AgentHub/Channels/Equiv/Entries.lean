import AgentHub.Channels.Equiv.Lifetime
import AgentHub.Channels.Equiv.Separation

/-!
# Claims of one kind

`Entries` says that nothing stands under a key but claims of one kind.  Commands keep it unless they
write another claim there, so what an operation makes of it is decided by the claims it writes; and
a load gives claims of that kind alone.
-/

namespace AgentHub.Channels

open AgentHub.Validation AgentHub.Outbox AgentHub.Hub Program Store

/-! ### Entries -/

/-- Every field under a key is a claim of one kind, with no NUL byte in it. -/
def Entries (Q : OwnershipClaim → Prop) (key : String) (s : Store) : Prop :=
  ∀ f ∈ s.fields key, ∃ claim, validateClaimNulFields claim = .ok () ∧ Q claim ∧
    f = (claim.agent, claimText claim)

/-- A command that writes nothing under a key but claims of one kind. -/
def Enters (Q : OwnershipClaim → Prop) (key : String) : RedisCall → Prop
  | .hset k fields => k = key → ∀ f ∈ fields, ∃ claim, validateClaimNulFields claim = .ok () ∧
      Q claim ∧ f = (claim.agent, claimText claim)
  | _ => True

section Entries

variable {lib : Library} {Q : OwnershipClaim → Prop} {key : String} {s : Store}

theorem Entries.written (h : Entries Q key s) : ∀ f ∈ s.fields key, Written f := by
  intro f hf
  obtain ⟨claim, hvalid, -, rfl⟩ := h f hf
  exact ⟨claim, hvalid, rfl⟩

theorem Entries.mono {R : OwnershipClaim → Prop} (h : Entries Q key s)
    (hQ : ∀ claim, Q claim → R claim) : Entries R key s := by
  intro f hf
  obtain ⟨claim, hvalid, hclaim, rfl⟩ := h f hf
  exact ⟨claim, hvalid, hQ claim hclaim, rfl⟩

theorem entries_del (Q : OwnershipClaim → Prop) (key : String) (s : Store) :
    Entries Q key (s.del key) := by
  intro f hf
  rw [fields_del_self] at hf
  cases hf

/-- A command that writes only such claims keeps the key to them. -/
theorem entries_execute {c : RedisCall} {d : Nat} {scanned : List String} (hc : Enters Q key c)
    (h : Entries Q key s) : Entries Q key ((s.wait d).execute lib scanned c).1 := by
  intro f hf
  rcases mem_fields_execute hf with hold | ⟨fields, rfl, hnew⟩
  · exact h f hold
  · exact hc rfl f hnew

theorem admitsLoad_enters (Q : OwnershipClaim → Prop) (key k : String) :
    AdmitsLoad (Enters Q key) k where
  idle c hc := by
    cases c with
    | hset => cases hc
    | _ => trivial
  del := trivial
  delResolution := trivial
  hdel _ := trivial
  expire _ _ := trivial

/-- Operations with their keys elsewhere. -/
theorem admits_enters {other : String} (hkey : key ∉ resourceKeys other) :
    Admits (Enters Q key) (claimsRedisKey other) where
  toAdmitsLoad := admitsLoad_enters Q key _
  hset claim _ heq := by
    subst heq
    exact absurd List.mem_cons_self hkey
  resolve _ heq := by
    subst heq
    exact absurd (List.mem_cons_of_mem _ List.mem_cons_self) hkey
  expireResolution _ := trivial

theorem only_persist_enters {claims : List OwnershipClaim} {now : Nat}
    (hclaims : ∀ claim ∈ claims, Q claim) : Only (Enters Q key) (persistClaims key claims now) := by
  refine only_persistClaims (admitsLoad_enters Q key key) fun claim hclaim hvalid => ?_
  intro _ f hf
  exact ⟨claim, hvalid, hclaims claim hclaim, List.mem_singleton.1 hf⟩

theorem entries_run {α : Type} {p : Claiming α} (hp : Only (Enters Q key) p) (env : Nat → CallEnv)
    (h : Entries Q key s) : Entries Q key (p.run (serve lib) .panicked env s).1 :=
  Only.run (fun _ _ _ _ hc ht => entries_execute hc ht) hp env h

theorem wp_entries {C : RedisCall → CallEnv → Store → Prop} {α : Type} {p : Claiming α}
    (hp : Only (Enters Q key) p) (h : Entries Q key s) :
    Wp lib C p (fun _ t => Entries Q key t) s :=
  Only.wp (fun _ _ _ _ hc ht => entries_execute hc ht) hp h

/-- **The claims of one kind are written.**  Where it ends well nothing else stands under the key. -/
theorem wp_persist_entries {C : RedisCall → CallEnv → Store → Prop} {claims : List OwnershipClaim}
    {now : Nat} (hclaims : ∀ claim ∈ claims, Q claim) :
    Wp lib C (persistClaims key claims now) (fun r t => r = .ok () → Entries Q key t) s := by
  unfold persistClaims checked
  cases hnul : rejectNulBytes key "claim_key" with
  | error e =>
    intro hok
    cases hok
  | ok u =>
    have hwrites : Only (Enters Q key) (do
        writeClaims key claims
        command (.expireClaims key claims now)) := by
      refine (only_writeClaims fun claim hclaim hvalid _ f hf => ?_).bind fun _ => only_command trivial
      exact ⟨claim, hvalid, hclaims claim hclaim, List.mem_singleton.1 hf⟩
    show Wp lib C (if claims = [] then delClaims key else _) _ s
    split
    · refine wp_delClaims fun d e _ => ?_
      have hdeleted := entries_del Q key (s.wait d)
      have hresolution : Enters Q key (.del (claimResolutionKey key)) := trivial
      show Entries Q key (((((s.wait d).del key).wait e).execute lib []
        (.del (claimResolutionKey key))).1)
      exact entries_execute hresolution hdeleted
    · refine wp_command fun env _ => ?_
      have hdeleted := entries_del Q key (s.wait env.delay)
      refine wp_mono (serve lib) ClaimError.panicked C ?_ (wp_entries hwrites hdeleted)
      exact fun _ _ hentries _ => hentries

end Entries

/-! ### What a load gives -/

/-- The claims a load gives: those that are active when it begins. -/
def loaded (lib : Library) (key : String) (env : Nat → CallEnv) (s : Store) :
    List OwnershipClaim :=
  let now := (s.wait (env 0).delay).clock
  let all := ((s.wait (env 0).delay).wait (env 1).delay).visible key
  sortClaims (activeClaims lib ((all.map Table.rows).getD []) now)

section Loaded

variable {lib : Library} {Q : OwnershipClaim → Prop} {key : String} {s : Store}
  {env : Nat → CallEnv}

theorem run_load (lib : Library) (key : String) (env : Nat → CallEnv) (s : Store) :
    ((loadActiveClaims lib key).run (serve lib) .panicked env s).2 = .ok (loaded lib key env s) :=
  load_value lib key env s

/-- The fields a load reads. -/
theorem mem_rows_visible {f : String × String} {d e : Nat}
    (h : f ∈ ((((s.wait d).wait e).visible key).map Table.rows).getD []) : f ∈ s.fields key := by
  cases hvisible : ((s.wait d).wait e).visible key with
  | none =>
    rw [hvisible] at h
    cases h
  | some hash =>
    have hfields := fields_of_visible hvisible
    rw [wait_fields, wait_fields] at hfields
    rw [hvisible] at h
    rwa [hfields]

/-- A claim that is given stands under the key, and is not expired. -/
theorem mem_loaded {claim : OwnershipClaim} (h : claim ∈ loaded lib key env s) :
    (∃ f ∈ s.fields key, lib.readClaim f.2 = some claim) ∧
      claimExpired lib claim (s.clock + (env 0).delay) = false := by
  obtain ⟨f, hf, hread, hopen⟩ := mem_activeClaims.1 (mem_sortClaims.1 h)
  refine ⟨⟨f, ?_, hread⟩, hopen⟩
  exact mem_rows_visible hf

theorem Entries.loaded (h : Entries Q key s) : ∀ claim ∈ loaded lib key env s, Q claim := by
  intro claim hclaim
  obtain ⟨⟨f, hf, hread⟩, -⟩ := mem_loaded hclaim
  obtain ⟨written, -, hwritten, rfl⟩ := h f hf
  rw [lib.readClaim_text] at hread
  exact Option.some.inj hread ▸ hwritten

theorem Entries.sound (h : Entries Q key s) : Sound (Channels.loaded lib key env s) := by
  have hrows := fun f hf => h.written f
    (mem_rows_visible (d := (env 0).delay) (e := (env 1).delay) hf)
  unfold Channels.loaded
  cases hvisible : ((s.wait (env 0).delay).wait (env 1).delay).visible key with
  | none => exact ⟨by simp [activeClaims_nil, sortClaims_nil],
      by simp [activeClaims_nil, sortClaims_nil]⟩
  | some hash =>
    rw [hvisible] at hrows
    exact sound_activeClaims hrows

/-- **A load and what follows it**, which begins with the claims that are given. -/
theorem run_load_then {α : Type} {C : RedisCall → CallEnv → Store → Prop}
    {f : List OwnershipClaim → Claiming α} (post : Except ClaimError α → Store → Prop)
    (mid : Store → Prop) (hload : Wp lib C (loadActiveClaims lib key) (fun _ t => mid t) s)
    (hrest : ∀ t, s.clock ≤ t.clock → mid t → Wp lib C (f (Channels.loaded lib key env s)) post t)
    (halong : (loadActiveClaims lib key >>= f).Along (serve lib) C env s) :
    post ((loadActiveClaims lib key >>= f).run (serve lib) .panicked env s).2
      ((loadActiveClaims lib key >>= f).run (serve lib) .panicked env s).1 := by
  obtain ⟨rest, hrun, hkept⟩ := run_bind_ok (serve lib) .panicked (f := f) (run_load lib key env s)
  rw [hrun]
  refine run_of_Wp post (hrest _ (run_clock lib _ env) ?_) (hkept C halong)
  exact run_of_Wp (fun _ t => mid t) hload (Along.left (serve lib) halong)

end Loaded

end AgentHub.Channels
