import AgentHub.Channels.Redis

/-!
# What is under a key

`fields` are the fields of a hash whether its deadline has passed or not; `visible` finds them while
it has not.  The rules of `wp` for one command, with the effect of each on the fields.
-/

namespace AgentHub.Channels

open AgentHub.Validation AgentHub.Outbox AgentHub.Hub Program

/-! ### Rules -/

section Rules

variable {α : Type} (lib : Library) (C : RedisCall → CallEnv → Store → Prop)

/-- The weakest precondition of an operation on the store. -/
abbrev Wp (p : Claiming α) (post : Except ClaimError α → Store → Prop) (s : Store) : Prop :=
  p.wp (Store.serve lib) .panicked C post s

variable {lib C}

/-- A command and what follows it. -/
theorem wp_call {c : RedisCall} {next : c.Reply → Claiming α}
    {post : Except ClaimError α → Store → Prop} {s : Store}
    (h : ∀ env, C c env s → Wp lib C (next ((s.wait env.delay).execute lib env.scanned c).2) post
      ((s.wait env.delay).execute lib env.scanned c).1) : Wp lib C (call c next) post s := by
  intro env henv
  refine ⟨?_, fun hlost => by cases hlost⟩
  intro r hr
  obtain rfl : ((s.wait env.delay).execute lib env.scanned c).2 = r := Option.some.inj hr
  exact h env henv

/-- A command whose reply the rest of an operation goes on with. -/
theorem wp_command {c : RedisCall} {f : c.Reply → Claiming α}
    {post : Except ClaimError α → Store → Prop} {s : Store}
    (h : ∀ env, C c env s → Wp lib C (f ((s.wait env.delay).execute lib env.scanned c).2) post
      ((s.wait env.delay).execute lib env.scanned c).1) : Wp lib C (command c >>= f) post s :=
  wp_call h

/-- `Utc::now()`. -/
theorem wp_now {f : Nat → Claiming α} {post : Except ClaimError α → Store → Prop} {s : Store}
    (h : ∀ d, Wp lib C (f (s.wait d).clock) post (s.wait d)) :
    Wp lib C (command .now >>= f) post s :=
  wp_command fun env _ => h env.delay

/-- The first part of an operation ends as `mid` says; the rest begins there. -/
theorem wp_then {β : Type} {p : Claiming α} {f : α → Claiming β}
    {post : Except ClaimError β → Store → Prop} {s : Store}
    (mid : Except ClaimError α → Store → Prop) (hp : Wp lib C p mid s)
    (hok : ∀ a t, mid (.ok a) t → Wp lib C (f a) post t)
    (herror : ∀ e t, mid (.error e) t → post (.error e) t) : Wp lib C (p >>= f) post s := by
  refine wp_bind _ _ _ (wp_mono _ _ _ ?_ hp)
  intro r t hmid
  cases r with
  | ok a => exact hok a t hmid
  | error e => exact herror e t hmid

/-- What an operation run alone ends with. -/
theorem run_of_Wp {p : Claiming α} (post : Except ClaimError α → Store → Prop) {s : Store}
    {env : Nat → CallEnv} (h : Wp lib C p post s) (halong : p.Along (Store.serve lib) C env s) :
    post (p.run (Store.serve lib) .panicked env s).2 (p.run (Store.serve lib) .panicked env s).1 :=
  run_of_wp _ _ _ env h halong

/-- `Utc::now()` in a run. -/
theorem run_now_then {f : Nat → Claiming α} (post : Except ClaimError α → Store → Prop)
    {env : Nat → CallEnv} {s : Store}
    (h : post
      ((f (s.wait (env 0).delay).clock).run (Store.serve lib) .panicked (fun n => env (n + 1))
        (s.wait (env 0).delay)).2
      ((f (s.wait (env 0).delay).clock).run (Store.serve lib) .panicked (fun n => env (n + 1))
        (s.wait (env 0).delay)).1) :
    post ((command .now >>= f).run (Store.serve lib) .panicked env s).2
      ((command .now >>= f).run (Store.serve lib) .panicked env s).1 := h

/-- A condition on the surroundings alone. -/
theorem along_of_forall {p : Claiming α} {env : Nat → CallEnv}
    (h : ∀ c n s, C c (env n) s) {s : Store} : p.Along (Store.serve lib) C env s := by
  induction p generalizing env s with
  | done a => trivial
  | fail e => trivial
  | call c next ih => exact ⟨h c 0 s, fun r _ => ih r fun c n s => h c (n + 1) s⟩

end Rules

/-! ### Fields -/

namespace Store

variable {s : Store} {key k : String}

/-- The fields under a key. -/
def fields (s : Store) (key : String) : List (String × String) :=
  ((s.hashes key).map fun slot => slot.value.rows).getD []

/-- The deadline of a key has not passed. -/
def Lasts (slot : Expiring Hash) (t : Nat) : Prop := ∀ deadline ∈ slot.deadline, t ≤ deadline

theorem visible_eq_some {h : Hash} :
    s.visible key = some h ↔ ∃ slot, s.hashes key = some slot ∧ slot.value = h ∧
      Lasts slot s.nowMs := by
  unfold visible readKey Lasts
  cases hslot : s.hashes key with
  | none => simp
  | some slot =>
    obtain ⟨value, deadline⟩ := slot
    cases deadline with
    | none => simp
    | some deadline =>
      by_cases hpast : s.nowMs ≤ deadline
      · simp [hpast]
      · simp [hpast]

theorem fields_of_visible {h : Hash} (hvisible : s.visible key = some h) :
    s.fields key = h.rows := by
  obtain ⟨slot, hslot, rfl, -⟩ := visible_eq_some.1 hvisible
  simp [fields, hslot]

@[simp] theorem wait_hashes (d : Nat) : (s.wait d).hashes = s.hashes := rfl

@[simp] theorem wait_clock (d : Nat) : (s.wait d).clock = s.clock + d := rfl

@[simp] theorem wait_fields (d : Nat) : (s.wait d).fields k = s.fields k := rfl

@[simp] theorem setKey_self {slot : Option (Expiring Hash)} :
    (s.setKey key slot).hashes key = slot := Function.update_self _ _ _

theorem setKey_other {slot : Option (Expiring Hash)} (h : k ≠ key) :
    (s.setKey key slot).hashes k = s.hashes k := Function.update_of_ne h _ _

@[simp] theorem setKey_clock {slot : Option (Expiring Hash)} :
    (s.setKey key slot).clock = s.clock := rfl

theorem hset_other {fields : List (String × String)} (h : k ≠ key) :
    (s.hset key fields).hashes k = s.hashes k := by
  unfold hset
  split
  · exact setKey_other h
  · exact setKey_other h

theorem hdel_other {fields : List String} (h : k ≠ key) :
    (s.hdel key fields).hashes k = s.hashes k := by
  unfold hdel
  split
  · exact setKey_other h
  · rfl

theorem expire_other {seconds : Nat} (h : k ≠ key) :
    (s.expire key seconds).hashes k = s.hashes k := by
  unfold expire
  split
  · exact setKey_other h
  · rfl

@[simp] theorem hset_clock {fields : List (String × String)} :
    (s.hset key fields).clock = s.clock := by
  unfold hset
  split <;> rfl

@[simp] theorem hdel_clock {fields : List String} : (s.hdel key fields).clock = s.clock := by
  unfold hdel
  split <;> rfl

@[simp] theorem expire_clock {seconds : Nat} : (s.expire key seconds).clock = s.clock := by
  unfold expire
  split <;> rfl

theorem execute_clock (lib : Library) (scanned : List String) (c : RedisCall) :
    (s.execute lib scanned c).1.clock = s.clock := by
  cases c with
  | hset => exact hset_clock
  | hdel => exact hdel_clock
  | del => exact setKey_clock
  | expire => exact expire_clock
  | expireClaims => exact expire_clock
  | _ => rfl

/-- Time only passes. -/
theorem wp_clock (lib : Library) {C : RedisCall → CallEnv → Store → Prop} {α : Type}
    (p : Claiming α) : Wp lib C p (fun _ t => s.clock ≤ t.clock) s := by
  induction p generalizing s with
  | done a => exact le_rfl
  | fail e => exact le_rfl
  | call c next ih =>
    refine wp_call fun env _ => wp_mono _ _ _ ?_ (ih _)
    intro r t ht
    rw [execute_clock] at ht
    exact (Nat.le_add_right _ _).trans ht

theorem run_clock (lib : Library) {α : Type} (p : Claiming α) (env : Nat → CallEnv) :
    s.clock ≤ (p.run (serve lib) .panicked env s).1.clock :=
  run_of_Wp (C := fun _ _ _ => True) (fun _ t => s.clock ≤ t.clock) (wp_clock lib p)
    (along_of_forall fun _ _ _ => trivial)

theorem fields_congr {t : Store} (h : t.hashes k = s.hashes k) : t.fields k = s.fields k := by
  unfold fields
  rw [h]

theorem fields_del (h : k ≠ key) : (s.del key).fields k = s.fields k :=
  fields_congr (setKey_other h)

@[simp] theorem fields_del_self : (s.del key).fields key = [] := by
  simp [fields, del]

/-- The fields that `HDEL` leaves. -/
theorem mem_fields_hdel {agents : List String} {f : String × String}
    (h : f ∈ (s.hdel key agents).fields k) : f ∈ s.fields k := by
  by_cases hk : k = key
  · subst hk
    unfold hdel at h
    split at h
    · rename_i hash hvisible
      rw [fields_of_visible hvisible]
      unfold fields at h
      rw [setKey_self] at h
      split at h
      · cases h
      · exact (Table.mem_foldl_delete.1 h).1
    · exact h
  · rwa [fields_congr (hdel_other hk)] at h

/-- `EXPIRE` changes no field unless it deletes the key. -/
theorem fields_expire {seconds : Nat} (h : seconds ≠ 0) :
    (s.expire key seconds).fields k = s.fields k := by
  by_cases hk : k = key
  · subst hk
    unfold expire
    split
    · rename_i hash hvisible
      rw [fields_of_visible hvisible, if_neg h]
      simp [fields]
    · rfl
  · exact fields_congr (expire_other hk)

theorem mem_fields_expire {seconds : Nat} {f : String × String}
    (h : f ∈ (s.expire key seconds).fields k) : f ∈ s.fields k := by
  by_cases hseconds : seconds = 0
  · subst hseconds
    by_cases hk : k = key
    · subst hk
      unfold expire at h
      split at h
      · simp [fields] at h
      · exact h
    · rwa [fields_congr (expire_other hk)] at h
  · rwa [fields_expire hseconds] at h

end Store

end AgentHub.Channels
