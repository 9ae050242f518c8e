import AgentHub.Channels.Equiv.Load

/-!
# The lifetime of a hash

`EXPIRE` with `claims_hash_ttl_seconds` keeps a hash for the whole seconds its latest lease has left
at the time the claims were read.  `Covers` says when that reaches the end of the lease: the part of
a second that is cut off is at most the time until the server gets the command.
-/

namespace AgentHub.Channels

open AgentHub.Validation AgentHub.Outbox AgentHub.Hub Program Store

/-! ### What a reader finds -/

namespace Store

variable {s : Store} {key : String} {f : String × String} {t : Nat}

/-- A field that is found under a key at some time, unless something is done before. -/
def Shows (s : Store) (key : String) (f : String × String) (t : Nat) : Prop :=
  ∃ slot, s.hashes key = some slot ∧ f ∈ slot.value.rows ∧ Lasts slot (t / 1000000)

theorem Lasts.earlier {slot : Expiring Hash} {a b : Nat} (h : Lasts slot b) (hle : a ≤ b) :
    Lasts slot a := fun deadline hdeadline => hle.trans (h deadline hdeadline)

theorem Shows.mem_fields (h : s.Shows key f t) : f ∈ s.fields key := by
  obtain ⟨slot, hslot, hf, -⟩ := h
  simpa [fields, hslot] using hf

theorem Shows.congr {u : Store} (hhashes : u.hashes key = s.hashes key) (h : s.Shows key f t) :
    u.Shows key f t := by
  unfold Shows
  rw [hhashes]
  exact h

/-- What is found later is visible now. -/
theorem Shows.visible (h : s.Shows key f t) (hle : s.clock ≤ t) :
    ∃ hash, s.visible key = some hash ∧ f ∈ hash.rows := by
  obtain ⟨slot, hslot, hf, hlasts⟩ := h
  exact ⟨slot.value,
    visible_eq_some.2 ⟨slot, hslot, rfl, hlasts.earlier (Nat.div_le_div_right hle)⟩, hf⟩

/-- `HDEL` of other fields. -/
theorem Shows.hdel {agents : List String} (h : s.Shows key f t) (hle : s.clock ≤ t)
    (hagents : f.1 ∉ agents) : (s.hdel key agents).Shows key f t := by
  obtain ⟨slot, hslot, hf, hlasts⟩ := h
  have hvisible : s.visible key = some slot.value :=
    visible_eq_some.2 ⟨slot, hslot, rfl, hlasts.earlier (Nat.div_le_div_right hle)⟩
  have hrest : f ∈ (agents.foldl Table.delete slot.value).rows :=
    Table.mem_foldl_delete.2 ⟨hf, hagents⟩
  have hdeleted : (s.hdel key agents).hashes key =
      some ⟨agents.foldl Table.delete slot.value, s.deadline key⟩ := by
    unfold Store.hdel
    simp only [hvisible, setKey_self]
    rw [if_neg (List.ne_nil_of_mem hrest)]
  refine ⟨_, hdeleted, hrest, fun deadline hdeadline => hlasts deadline ?_⟩
  simpa [Store.deadline, hslot] using hdeadline

end Store

/-! ### The latest lease -/

section Latest

variable (lib : Library)

/-- The last time a lease of the claims ends. -/
def Latest (claims : List OwnershipClaim) (E : Int) : Prop :=
  (∃ claim ∈ claims, expiry lib claim = some E) ∧
    ∀ claim ∈ claims, ∀ other, expiry lib claim = some other → other ≤ E

variable {lib} {claims : List OwnershipClaim} {E : Int} {now : Nat}

theorem exists_latest {claim : OwnershipClaim} (hclaim : claim ∈ claims)
    (hE : expiry lib claim = some E) : ∃ last, Latest lib claims last ∧ E ≤ last := by
  have hmem : ∀ t, t ∈ claims.filterMap (expiry lib) ↔
      ∃ claim ∈ claims, expiry lib claim = some t := fun t => List.mem_filterMap
  obtain ⟨last, hlast⟩ := Option.isSome_iff_exists.1
    (List.isSome_max?_of_mem ((hmem E).2 ⟨claim, hclaim, hE⟩))
  obtain ⟨hin, hle⟩ := List.max?_eq_some_iff.1 hlast
  refine ⟨last, ⟨(hmem last).1 hin, fun other hother t ht => ?_⟩, ?_⟩
  · exact hle t ((hmem t).2 ⟨other, hother, ht⟩)
  · exact hle E ((hmem E).2 ⟨claim, hclaim, hE⟩)

/-- The seconds of a hash are those its latest lease has left. -/
theorem claimsHashTtlSeconds_latest (h : Latest lib claims E) (hlater : (now : Int) < E) :
    claimsHashTtlSeconds lib claims now = ((E - now) / nanosPerSecond).toNat := by
  obtain ⟨⟨claim, hclaim, hE⟩, hlast⟩ := h
  have hle := le_claimsHashTtlSeconds hclaim hE hlater
  rcases claimsHashTtlSeconds_cases lib claims now with ⟨hnone, -⟩ | ⟨other, hother, t, ht, -, httl⟩
  · have hpast := hnone claim hclaim E hE
    omega
  · have hother := hlast other hother t ht
    unfold nanosPerSecond at hle httl ⊢
    omega

end Latest

/-! ### When a lifetime reaches the end of a lease -/

/-- The lifetime that is computed at `now` and set at `sent` reaches the end of the lease, or the
lease has ended by then. -/
def Covers (now sent : Nat) (E : Int) : Prop :=
  E ≤ sent ∨
    (nanosPerSecond : Int) ≤ E - now ∧
      (E - 1) / 1000000 ≤ (sent / 1000000 : Nat) + 1000 * ((E - now) / nanosPerSecond)

/-- A lifetime of claims reaches the end of their latest lease. -/
def Covered (lib : Library) : RedisCall → CallEnv → Store → Prop
  | .expireClaims _ claims now, env, s => ∀ E, Latest lib claims E → (now : Int) < E →
    Covers now (s.clock + env.delay) E
  | _, _, _ => True

section Expire

variable {lib : Library} {s : Store} {key : String} {claims : List OwnershipClaim} {E : Int}
  {now : Nat}

theorem expire_hashes {h : Hash} {seconds : Nat} (hvisible : s.visible key = some h) :
    (s.expire key seconds).hashes key =
      if seconds = 0 then none else some ⟨h, some (s.nowMs + seconds * 1000)⟩ := by
  unfold expire
  simp only [hvisible, setKey_self]

/-- A lifetime that covers the latest lease shows every field until then. -/
theorem Store.Shows.expire {f : String × String} {t : Nat} (hlatest : Latest lib claims E)
    (hlater : (now : Int) < E) (hcovers : Covers now s.clock E) (hle : s.clock ≤ t)
    (ht : (t : Int) < E) (h : s.Shows key f t) :
    (s.expire key (claimsHashTtlSeconds lib claims now)).Shows key f t := by
  obtain ⟨hash, hvisible, hf⟩ := h.visible hle
  rw [claimsHashTtlSeconds_latest hlatest hlater]
  rcases hcovers with hpast | ⟨hsecond, hreaches⟩
  · omega
  · have hpositive : ((E - now) / nanosPerSecond).toNat ≠ 0 := by
      unfold nanosPerSecond at hsecond ⊢
      omega
    refine ⟨_, (expire_hashes hvisible).trans (if_neg hpositive), hf, ?_⟩
    rintro _ ⟨⟩
    unfold nanosPerSecond nowMs at *
    omega

/-- **The lifetime of the claims**: the hash is there at every time before the end of the latest
lease exactly where the lifetime covers it. -/
theorem expire_covers_iff {h : Hash} (hvisible : s.visible key = some h)
    (hlatest : Latest lib claims E) (hlater : (now : Int) < E) :
    (∀ t : Nat, s.clock ≤ t → (t : Int) < E → ∃ slot,
        (s.expire key (claimsHashTtlSeconds lib claims now)).hashes key = some slot ∧
          Lasts slot (t / 1000000)) ↔
      Covers now s.clock E := by
  rw [claimsHashTtlSeconds_latest hlatest hlater, expire_hashes hvisible]
  constructor
  · intro hthere
    rcases lt_or_ge (s.clock : Int) E with hopen | hpast
    · -- The last nanosecond of the lease is the one that decides.
      obtain ⟨slot, hslot, hlasts⟩ := hthere (E - 1).toNat (by omega) (by omega)
      split at hslot
      · cases hslot
      · rename_i hpositive
        obtain rfl := Option.some.inj hslot
        have hreaches := hlasts _ rfl
        refine .inr ⟨?_, ?_⟩
        · unfold nanosPerSecond at hpositive ⊢
          omega
        · unfold nanosPerSecond nowMs at *
          omega
    · exact .inl hpast
  · rintro (hpast | ⟨hsecond, hreaches⟩) t hle ht
    · omega
    · have hpositive : ((E - now) / nanosPerSecond).toNat ≠ 0 := by
        unfold nanosPerSecond at hsecond ⊢
        omega
      refine ⟨_, if_neg hpositive, ?_⟩
      rintro _ ⟨⟩
      unfold nanosPerSecond nowMs at *
      omega

end Expire

end AgentHub.Channels
