import AgentHub.Hub.Redis
import AgentHub.Json.Equiv.Document
import Mathlib.Algebra.Order.Ring.Int
import Mathlib.Algebra.Group.Nat.Even

/-!
# When two claims are the same in Lua

The scripts compare decoded documents, which forgets the order of fields, the difference between
near integers, and that between an empty array and an empty object.  None of this can confuse two
claims when the lifetime of one is at most a day: `same_value`.
-/

namespace AgentHub.Hub

open AgentHub.Json AgentHub.Outbox

/-! ### The comparison -/

/-- Two fields that are both absent or hold the same. -/
def sameSlot : Option Value → Option Value → Bool
  | none, none => true
  | some v, some w => same v w
  | _, _ => false

theorem sameFields_mem {a b : Fields} (h : sameFields a b = true) {k : String} {v : Value}
    (hmem : (k, v) ∈ a) : ∃ w, Fields.get b k = some w ∧ same v w = true := by
  induction a with
  | nil => cases hmem
  | cons kv a ih =>
    obtain ⟨k', v'⟩ := kv
    simp only [sameFields, Bool.and_eq_true] at h
    rcases List.mem_cons.mp hmem with heq | hmem
    · cases heq
      cases hget : Fields.get b k with
      | none => simp [hget] at h
      | some w => exact ⟨w, rfl, by simpa [hget] using h.1⟩
    · exact ih h.2 hmem

/-- Objects are compared name by name. -/
theorem same_obj {a b : Fields} (h : same (.obj a) (.obj b) = true) (k : String) :
    sameSlot (Fields.get a k) (Fields.get b k) = true := by
  simp only [same, Bool.and_eq_true, List.all_eq_true] at h
  cases ha : Fields.get a k with
  | some v =>
    obtain ⟨w, hw, hsame⟩ := sameFields_mem h.1 (mem_of_get ha)
    rw [hw]
    exact hsame
  | none =>
    cases hb : Fields.get b k with
    | none => rfl
    | some w =>
      have hsome := h.2 (k, w) (mem_of_get hb)
      simp [ha] at hsome

theorem sameSlot_str {a b : Option String} :
    sameSlot (a.map .str) (b.map .str) = true ↔ a = b := by
  cases a <;> cases b <;> simp [sameSlot, same]

theorem sameItems_str {a b : List String} :
    sameItems (a.map .str) (b.map .str) = true ↔ a = b := by
  induction a generalizing b with
  | nil => cases b <;> simp [sameItems]
  | cons x a ih => cases b <;> simp [sameItems, same, ih]

/-! ### Numbers -/

theorem luaNumber_of_le {n : Nat} (h : n ≤ 2 ^ 53) : luaNumber n = n := by
  simp only [luaNumber, Int.natAbs_natCast, if_pos h]

/-- A large integer is not rounded below the range of exact ones. -/
theorem le_luaNumber {n : Nat} (h : 2 ^ 53 < n) : 2 ^ 53 ≤ luaNumber n := by
  have hne : n ≠ 0 := by omega
  have hlog : 53 ≤ Nat.log2 n := (Nat.le_log2 hne).mpr h.le
  -- the distance of two doubles of this size
  set unit := 2 ^ (Nat.log2 n - 52) with hunit
  have hpow : 2 ^ 52 * unit = 2 ^ Nat.log2 n := by
    rw [hunit, ← pow_add]
    congr 1
    omega
  have htwo : 2 ≤ unit := by
    calc 2 = 2 ^ 1 := rfl
      _ ≤ unit := Nat.pow_le_pow_right (by omega) (by omega)
  have hquot : 2 ^ 52 ≤ n / unit := by
    rw [Nat.le_div_iff_mul_le (by omega), hpow]
    exact Nat.log2_self_le hne
  -- no rounding goes below the power of two
  have hround : ∀ q : Nat, 2 ^ 52 ≤ q → (2 ^ 53 : Int) ≤ q * unit := by
    intro q hq
    have hmul : 2 ^ 52 * 2 ≤ q * unit := Nat.mul_le_mul hq htwo
    exact_mod_cast (by omega : 2 ^ 53 ≤ q * unit)
  have hsign : (n : Int).sign = 1 := by
    rw [Int.sign_eq_one_iff_pos]
    omega
  simp only [luaNumber, Int.natAbs_natCast, if_neg (by omega : ¬ n ≤ 2 ^ 53), hsign, one_mul,
    ← hunit]
  split
  · exact hround _ (Nat.le_succ_of_le hquot)
  · exact hround _ hquot

theorem eq_of_luaNumber_eq {a b : Nat} (hb : b < 2 ^ 53) (h : luaNumber a = luaNumber b) :
    a = b := by
  rw [luaNumber_of_le hb.le] at h
  by_cases ha : a ≤ 2 ^ 53
  · rw [luaNumber_of_le ha] at h
    exact_mod_cast h
  · have hle := le_luaNumber (by omega : 2 ^ 53 < a)
    rw [h] at hle
    omega

/-- A natural number as a double: its first 53 binary digits. -/
theorem luaNumber_eq (n : Nat) : luaNumber n = Rounding.floating 2 52 n := by
  by_cases hn : n ≤ 2 ^ 53
  · rw [luaNumber_of_le hn]
    rcases Nat.eq_or_lt_of_le hn with rfl | hlt
    · decide
    · rw [Rounding.floating_of_lt hlt]
  · have hsign : (n : Int).sign = 1 := by
      rw [Int.sign_eq_one_iff_pos]
      omega
    simp only [luaNumber, Int.natAbs_natCast, if_neg hn, hsign, one_mul]
    unfold Rounding.floating Rounding.unitOf Rounding.nearestEven
    rw [Nat.log2_eq_log_two]
    push_cast
    rfl

theorem luaNumber_mono {a b : Nat} (h : a ≤ b) : luaNumber a ≤ luaNumber b := by
  rw [luaNumber_eq, luaNumber_eq]
  exact_mod_cast Rounding.floating_mono 2 52 h

/-- Printing and reading numbers keeps their order. -/
theorem luaReread_mono {a b : Nat} (h : a ≤ b) : luaReread a ≤ luaReread b := by
  refine Int.toNat_le_toNat (luaNumber_mono (Rounding.floating_mono 10 13 ?_))
  exact Int.toNat_le_toNat (luaNumber_mono h)

/-- A number of at most fourteen digits is read as it was. -/
theorem luaReread_of_lt {n : Nat} (h : n < 10 ^ 14) : luaReread n = n := by
  have hdouble : luaNumber n = n := luaNumber_of_le (by omega)
  rw [luaReread, hdouble, Int.toNat_natCast, Rounding.floating_of_lt h, hdouble, Int.toNat_natCast]

/-! ### Claims -/

theorem ClaimStatus.asStr_injective : Function.Injective ClaimStatus.asStr := by
  intro a b h
  cases a <;> cases b <;> first | rfl | simp [ClaimStatus.asStr] at h

theorem leaseModeStr_injective : Function.Injective leaseModeStr := by
  intro a b h
  cases a <;> cases b <;> first | rfl | simp [leaseModeStr] at h

theorem resourceScopeStr_injective : Function.Injective resourceScopeStr := by
  intro a b h
  cases a <;> cases b <;> first | rfl | simp [resourceScopeStr] at h

theorem RerouteSuggestion.same_value {a b : RerouteSuggestion}
    (h : same a.value b.value = true) : a = b := by
  have hslot := same_obj h
  have h₁ := hslot "original_resource"
  have h₂ := hslot "suggested_resource"
  have h₃ := hslot "isolation_hint"
  have h₄ := hslot "reason"
  cases a
  cases b
  simp_all [Fields.get, List.lookup_cons, List.lookup_nil, sameSlot, same]

theorem OwnershipClaim.slots_nodup (c : OwnershipClaim) : (c.slots.map Prod.fst).Nodup := by
  simp [OwnershipClaim.slots]

/-- **Claims Lua takes for equal are equal**, if the lifetime of one is at most a day. -/
theorem OwnershipClaim.same_value {a b : OwnershipClaim} (h : same a.value b.value = true)
    (hb : b.leaseTtlSeconds.toNat ≤ 86400) : a = b := by
  have hslot : ∀ k, sameSlot (a.slots.lookup k).join (b.slots.lookup k).join = true := by
    intro k
    have hk := same_obj h k
    rwa [get_compact a.slots_nodup, get_compact b.slots_nodup] at hk
  -- Most fields are texts, present or absent.
  have htext : ∀ (k : String) (x y : Option String), (a.slots.lookup k).join = x.map .str →
      (b.slots.lookup k).join = y.map .str → x = y := by
    intro k x y hx hy
    have hk := hslot k
    rw [hx, hy] at hk
    exact sameSlot_str.mp hk
  have hresource := htext "resource" (some a.resource) (some b.resource) rfl rfl
  have hagent := htext "agent" (some a.agent) (some b.agent) rfl rfl
  have hargument := htext "priority_argument" (some a.priorityArgument)
    (some b.priorityArgument) rfl rfl
  have htimestamp := htext "timestamp" (some a.timestamp) (some b.timestamp) rfl rfl
  have hstatus := htext "status" (some a.status.asStr) (some b.status.asStr) rfl rfl
  have hmode := htext "mode" (some (leaseModeStr a.mode)) (some (leaseModeStr b.mode)) rfl rfl
  have hnamespace := htext "namespace" a.leaseNamespace b.leaseNamespace rfl rfl
  have hkind := htext "scope_kind" a.scopeKind b.scopeKind rfl rfl
  have hpath := htext "scope_path" a.scopePath b.scopePath rfl rfl
  have hthread := htext "thread_id" a.threadId b.threadId rfl rfl
  have hexpires := htext "expires_at" a.expiresAt b.expiresAt rfl rfl
  have hscope := htext "scope" (some (resourceScopeStr a.scope)) (some (resourceScopeStr b.scope))
    rfl rfl
  have hscopes : a.repoScopes = b.repoScopes := by
    have hk : sameSlot (if a.repoScopes = [] then none else some (.arr (a.repoScopes.map .str)))
        (if b.repoScopes = [] then none else some (.arr (b.repoScopes.map .str))) = true :=
      hslot "repo_scopes"
    by_cases hA : a.repoScopes = [] <;> by_cases hB : b.repoScopes = [] <;>
      simp only [hA, hB, if_true, if_false, sameSlot, Bool.false_eq_true] at hk ⊢
    exact sameItems_str.mp (by simpa [same] using hk)
  have hlifetime : a.leaseTtlSeconds = b.leaseTtlSeconds := by
    have hk : sameSlot (some (.int a.leaseTtlSeconds.toNat))
        (some (.int b.leaseTtlSeconds.toNat)) = true := hslot "lease_ttl_seconds"
    simp only [sameSlot, same, beq_iff_eq] at hk
    exact UInt64.toNat_inj.mp (eq_of_luaNumber_eq (by omega) hk)
  have hreroute : a.rerouteSuggestion = b.rerouteSuggestion := by
    have hk : sameSlot (a.rerouteSuggestion.map RerouteSuggestion.value)
        (b.rerouteSuggestion.map RerouteSuggestion.value) = true := hslot "reroute_suggestion"
    cases hA : a.rerouteSuggestion <;> cases hB : b.rerouteSuggestion <;>
      simp only [hA, hB, Option.map_none, Option.map_some, sameSlot, Bool.false_eq_true] at hk
    · rfl
    · rw [RerouteSuggestion.same_value hk]
  simp only [Option.some.injEq] at hresource hagent hargument htimestamp hstatus hmode hscope
  have hstatus' := ClaimStatus.asStr_injective hstatus
  have hmode' := leaseModeStr_injective hmode
  have hscope' := resourceScopeStr_injective hscope
  cases a
  cases b
  simp_all

end AgentHub.Hub
