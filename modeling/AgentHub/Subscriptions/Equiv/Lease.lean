import AgentHub.Channels.Equiv.Horizon
import AgentHub.Subscriptions.Equiv.Store
import AgentHub.Subscriptions.Lease

/-!
# Which lifetimes are safe

A subscription is safe where its lifetime is none at all, which Redis refuses to set, or ends before
the year 10000 (`subscribe_safe_iff`).  With the claims and the renewals this is `lifetimes_safe_iff`;
`longest_lease_panics` is the lease that stops them.
-/

namespace AgentHub.Subscriptions

open AgentHub.Validation AgentHub.Outbox AgentHub.Channels

/-! ### Subscriptions -/

theorem newSubscription_surroundings {w : Caller} {request : SubscribeRequest}
    {expiry : Option Nat} (h : request.ttlSeconds.mapM (addLifetime w.now) = some expiry) :
    newSubscription w.surroundings request =
      (checkSubscriber request).map fun agent => w.record request agent expiry := by
  have hexpiry : request.ttlSeconds.mapM w.surroundings.expiry = .ok (expiry.map toRfc3339) := by
    cases httl : request.ttlSeconds with
    | none =>
      rw [httl] at h
      obtain rfl := Option.some.inj h
      rfl
    | some ttl =>
      rw [httl] at h
      obtain ⟨t, ht, rfl⟩ := Option.map_eq_some_iff.1 h
      obtain ⟨rfl, -⟩ := addLifetime_eq_some ht
      rfl
  unfold newSubscription checkSubscriber
  rw [hexpiry]
  cases nonEmpty request.agent "agent" with
  | error e => rfl
  | ok agent => cases checkPriorityMin request.scopes.priorityMin <;> rfl

/-- **A call that does not panic** is `subscribe` with its dates. -/
theorem subscribeAt_eq_subscribe {store : Store} {w : Caller} {request : SubscribeRequest}
    {expiry : Option Nat} (h : request.ttlSeconds.mapM (addLifetime w.now) = some expiry) :
    subscribeAt store w request = some (subscribe store w.surroundings request) := by
  unfold subscribeAt subscribe
  rw [newSubscription_surroundings h, h]
  cases checkSubscriber request with
  | error e => rfl
  | ok agent =>
    dsimp only [Except.map, Caller.surroundings]
    generalize saveSubscription store w.serverNow w.conn w.outcome
      (w.record request agent expiry) = result
    obtain ⟨error | _, saved⟩ := result
    · rfl
    · rfl

theorem mapM_addLifetime (now ttl : Nat) :
    (some ttl).mapM (addLifetime now) = (addLifetime now ttl).map some := rfl

/-- A subscription is saved only where Redis says so. -/
theorem done_of_saved {store saved : Store} {now : Nat} {conn : Except AgentBusError Unit}
    {outcome : Outcome} {sub : Subscription}
    (h : saveSubscription store now conn outcome sub = (.ok (), saved)) : outcome = .done := by
  unfold saveSubscription at h
  dsimp only at h
  split at h
  · cases h
  · cases h
  · split at h
    · rfl
    · cases h
    · cases h

/-- Every subscription of the lifetime at the time is safe: it does not panic, and one that is saved
is to expire at a later time, which is read back.  Redis refuses a lifetime of no seconds. -/
def SubscribeSafe (parse : String → Option Int) (now ttl : Nat) : Prop :=
  ∀ (store : Store) (w : Caller) (request : SubscribeRequest), w.now = now →
    request.ttlSeconds = some ttl → (ttl = 0 → w.outcome ≠ .done) →
    ∃ result, subscribeAt store w request = some result ∧
      ∀ sub, result.1 = .ok sub →
        ∃ text ∈ sub.expiresAt, ∃ E, parse text = some E ∧ (now : Int) < E

theorem nul_notMem_fractionText (nanos : Nat) : nul ∉ fractionText nanos := by
  have hdot : nul ≠ '.' := by decide
  unfold fractionText
  split_ifs <;>
    simp only [List.mem_cons, nul_notMem_padded, hdot, List.not_mem_nil, or_self, not_false_eq_true]

theorem nul_notMem_toRfc3339 (t : Nat) : nul ∉ (toRfc3339 t).toList := by
  have hdash : nul ≠ '-' := by decide
  have ht : nul ≠ 'T' := by decide
  have hcolon : nul ≠ ':' := by decide
  have hplus : nul ≠ '+' := by decide
  have hzero : nul ≠ '0' := by decide
  simp only [toRfc3339, String.toList_ofList, List.mem_append, List.mem_cons, nul_notMem_padded,
    nul_notMem_yearDigits, nul_notMem_fractionText, hdash, ht, hcolon, hplus, hzero,
    List.not_mem_nil, or_self, not_false_eq_true]

/-- A subscription of an agent. -/
def plainRequest (ttl : Nat) : SubscribeRequest := ⟨"a", {}, some ttl⟩

theorem check_plain (ttl : Nat) : checkSubscriber (plainRequest ttl) = .ok "a" := by
  have hagent : nonEmpty "a" "agent" = .ok "a" := by decide
  unfold checkSubscriber plainRequest
  dsimp only
  rw [hagent]
  rfl

/-- Redis takes the subscription. -/
theorem save_plain {w : Caller} (hconn : w.conn = .ok ()) (hdone : w.outcome = .done)
    (store : Store) (ttl t : Nat) :
    ∃ saved, saveSubscription store w.serverNow w.conn w.outcome
      (w.record (plainRequest ttl) "a" (some t)) = (.ok (), saved) := by
  have hvalid : validateSubscriptionNulFields (w.record (plainRequest ttl) "a" (some t)) =
      .ok () := by
    have htext : ∀ t name, rejectNulBytes (toRfc3339 t) name = .ok () := fun t name =>
      rejectNulBytes_eq_ok.2 (nul_notMem_toRfc3339 t)
    have hagent : rejectNulBytes "a" "agent" = .ok () := by decide
    have hid : rejectNulBytes w.id.toString "subscription_id" = .ok () :=
      rejectNulBytes_eq_ok.2 (notMem_uuid (by decide) (by decide) w.id)
    simp only [validateSubscriptionNulFields, rejectNulInFields, Caller.record, plainRequest, hagent,
      hid, htext, Option.map_some, Option.toList_some, Option.toList_none, List.map_nil,
      List.map_cons]
    rfl
  unfold saveSubscription
  rw [hvalid, hconn, hdone]
  exact ⟨_, rfl⟩

/-- **A subscription is safe** exactly where it has no lifetime to set, or one that ends before the
year 10000. -/
theorem subscribe_safe_iff {parse : String → Option Int} (hreads : ReadsDates parse) {now : Nat}
    (hnow : now < calendarEnd * nanosPerSecond) (ttl : Nat) :
    SubscribeSafe parse now ttl ↔
      ttl = 0 ∨ now + ttl * nanosPerSecond < yearTenThousand * nanosPerSecond := by
  have hyears : yearTenThousand ≤ calendarEnd := by decide
  have hmono := Nat.mul_le_mul_right nanosPerSecond hyears
  constructor
  · -- one call with a far ttl suffices
    intro hsafe
    rw [or_iff_not_imp_left]
    intro hpositive
    by_contra hfar
    obtain ⟨w, rfl, hconn, hdone⟩ : ∃ w : Caller, w.now = now ∧ w.conn = .ok () ∧
        w.outcome = .done :=
      ⟨⟨⟨List.replicate 32 0, List.length_replicate⟩, now, 0, .ok (), .done⟩, rfl, rfl, rfl⟩
    obtain ⟨result, hresult, hread⟩ := hsafe Table.empty w (plainRequest ttl) rfl rfl
      fun hzero => absurd hzero hpositive
    unfold subscribeAt at hresult
    rw [check_plain, show (plainRequest ttl).ttlSeconds = some ttl from rfl,
      mapM_addLifetime] at hresult
    cases hadd : addLifetime w.now ttl with
    | none =>
      rw [hadd] at hresult
      cases hresult
    | some t =>
      obtain ⟨saved, hsaved⟩ := save_plain hconn hdone Table.empty ttl t
      rw [hadd] at hresult
      dsimp only [Option.map_some] at hresult
      rw [hsaved] at hresult
      obtain rfl := Option.some.inj hresult
      obtain ⟨text, htext, E, hparse, -⟩ := hread _ rfl
      obtain ⟨rfl, hcalendar⟩ := addLifetime_eq_some hadd
      obtain rfl : toRfc3339 (w.now + ttl * nanosPerSecond) = text := Option.some.inj htext
      rw [hreads.nanos_far _ (by omega) hcalendar] at hparse
      cases hparse
  · rintro hnear store w request rfl httl hrefused
    have hadd : addLifetime w.now ttl = some (w.now + ttl * nanosPerSecond) := by
      -- the deadline is still a date that the readers know
      rw [addLifetime_eq, if_pos]
      rcases hnear with rfl | hnear
      · rwa [Nat.zero_mul, Nat.add_zero]
      · omega
    unfold subscribeAt
    rw [httl, mapM_addLifetime, hadd]
    split
    · exact ⟨_, rfl, fun sub h => by cases h⟩
    · next agent _ =>
      dsimp only [Option.map_some]
      split
      · exact ⟨_, rfl, fun sub h => by cases h⟩
      · next saved hsaved =>
        refine ⟨_, rfl, ?_⟩
        intro sub h
        obtain rfl := Except.ok.inj h
        have hpositive : ttl ≠ 0 := fun hzero => hrefused hzero (done_of_saved hsaved)
        have hlife : 0 < ttl * nanosPerSecond := Nat.mul_pos (by omega) (by decide)
        refine ⟨_, rfl, _, hreads.nanos _ (hnear.resolve_left hpositive), ?_⟩
        omega

/-! ### All lifetimes -/

/-- **Where no lifetime crashes the hub**: claims, renewals and subscriptions are safe exactly where
the lifetime, counted from the time the operation reads, ends before the year 10000.  A claim and a
renewal are for a second at least. -/
theorem lifetimes_safe_iff (lib : Library) (hreads : ReadsDates lib.parseRfc3339) (now : Nat)
    (hnow : now < calendarEnd * nanosPerSecond) (ttl : UInt64) (renewal : Option UInt64) :
    (ClaimSafe lib now ttl ↔
      now + max ttl.toNat 1 * nanosPerSecond < yearTenThousand * nanosPerSecond) ∧
    (RenewSafe lib now renewal ↔
      now + max (renewal.getD (UInt64.ofNat claimTtlSecs)).toNat 1 * nanosPerSecond <
        yearTenThousand * nanosPerSecond) ∧
    (SubscribeSafe lib.parseRfc3339 now ttl.toNat ↔
      ttl.toNat = 0 ∨ now + ttl.toNat * nanosPerSecond < yearTenThousand * nanosPerSecond) :=
  ⟨claim_safe_iff hreads now ttl, renew_safe_iff hreads now renewal,
    subscribe_safe_iff hreads hnow ttl.toNat⟩

def stampLibrary : Library := { sampleLibrary with parseRfc3339 := parseStamp }

/-- A minute at the beginning of time. -/
theorem lifetimes_safe_iff_minute :
    (ClaimSafe stampLibrary 0 60 ↔ 0 + 60 * nanosPerSecond < yearTenThousand * nanosPerSecond) ∧
    (RenewSafe stampLibrary 0 none ↔
      0 + 3600 * nanosPerSecond < yearTenThousand * nanosPerSecond) ∧
    (SubscribeSafe parseStamp 0 60 ↔
      60 = 0 ∨ 0 + 60 * nanosPerSecond < yearTenThousand * nanosPerSecond) :=
  lifetimes_safe_iff stampLibrary readsDates_parseStamp 0 (by decide) 60 none

/-- The longest lifetime. -/
theorem longest_lease_panics :
    ((claimResourceWithOptions stampLibrary "x" "a" "first"
        (lifetimeOptions 18446744073709551615)).run (Store.serve stampLibrary) .panicked
      stillCalls {}).2 = .error .panicked ∧
    subscribeAt Table.empty
      ⟨⟨List.replicate 32 0, List.length_replicate⟩, 0, 0, .ok (), .done⟩
      (plainRequest 18446744073709551615) = none := by
  constructor
  · exact first_claim_error (by decide)
  · unfold subscribeAt
    rw [check_plain]
    decide

end AgentHub.Subscriptions
