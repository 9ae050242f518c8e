import AgentHub.Channels.Equiv.Frame
import AgentHub.Channels.Equiv.Load
import AgentHub.Outbox.Equiv.Request

/-!
# What stands in the hashes of claims

Under the key of a resource whose name does not end in `:resolution` every field is a claim under
the name of its agent, with no NUL byte in it (`tidy_perform`).  So a load gives claims of different
agents that can all be written again.
-/

namespace AgentHub.Channels

open AgentHub.Validation AgentHub.Outbox AgentHub.Hub Program Store

/-! ### Written fields -/

/-- The key of a name that is not that of a resolution. -/
def Plain (key : String) : Prop :=
  ∃ name, key = claimsPrefix ++ name ∧ ∀ other, name ≠ claimResolutionKey other

def Written (f : String × String) : Prop :=
  ∃ claim, validateClaimNulFields claim = .ok () ∧ f = (claim.agent, claimText claim)

/-- Only claims stand under the keys of claims. -/
def Tidy (s : Store) : Prop := ∀ key, Plain key → ∀ f ∈ s.fields key, Written f

/-- A command that writes no field but claims under the keys of claims. -/
def WritesClaims : RedisCall → Prop
  | .hset key fields => Plain key → ∀ f ∈ fields, Written f
  | _ => True

/-- A resolution is under no key of claims. -/
theorem Plain.ne_resolution {key : String} (h : Plain key) (resource : String) :
    key ≠ claimResolutionKey (claimsPrefix ++ resource) := by
  rintro rfl
  obtain ⟨name, hname, hplain⟩ := h
  have hparts : claimsPrefix ++ claimResolutionKey resource = claimsPrefix ++ name := by
    rw [← hname]
    exact (String.append_assoc).symm
  exact hplain resource ((String.append_right_inj _).1 hparts).symm

theorem admitsLoad_writesClaims (key : String) : AdmitsLoad WritesClaims key where
  idle c hc := by
    cases c with
    | hset => cases hc
    | _ => trivial
  del := trivial
  delResolution := trivial
  hdel _ := trivial
  expire _ _ := trivial

theorem admits_writesClaims (resource : String) :
    Admits WritesClaims (claimsRedisKey resource) where
  toAdmitsLoad := admitsLoad_writesClaims _
  hset claim hvalid _ _ hf := ⟨claim, hvalid, List.mem_singleton.1 hf⟩
  resolve _ hplain := absurd rfl (hplain.ne_resolution (claimsKey resource))
  expireResolution _ := trivial

theorem only_writesClaims (lib : Library) (op : ClaimOp) :
    Only WritesClaims (op.program lib) := by
  cases hop : op.resource? with
  | some resource => exact only_program lib hop (admits_writesClaims resource)
  | none =>
    cases op with
    | list resourceFilter statusFilter =>
      exact only_list lib resourceFilter statusFilter admitsLoad_writesClaims
    | claim => cases hop
    | renew => cases hop
    | release => cases hop
    | resolve => cases hop
    | state => cases hop

/-- What a field was before `HSET`, or one of those written. -/
theorem mem_fields_hset {s : Store} {key k : String} {fields : List (String × String)}
    {f : String × String} (h : f ∈ (s.hset key fields).fields k) :
    f ∈ s.fields k ∨ k = key ∧ f ∈ fields := by
  by_cases hk : k = key
  · subst hk
    unfold hset at h
    split at h
    · rename_i hash hvisible
      have hmem : f ∈ (fields.foldl Table.put hash).rows := by simpa [Store.fields] using h
      rw [fields_of_visible hvisible]
      exact (Table.mem_of_mem_foldl_put hmem).imp_right fun hf => ⟨rfl, hf⟩
    · have hmem : f ∈ (fields.foldl Table.put (Table.empty : Hash)).rows := by
        simpa [Store.fields] using h
      rcases Table.mem_of_mem_foldl_put hmem with hnone | hf
      · cases hnone
      · exact .inr ⟨rfl, hf⟩
  · exact .inl (by rwa [fields_congr (hset_other hk)] at h)

/-- What a field was before a command, or one of those it writes. -/
theorem mem_fields_execute {lib : Library} {c : RedisCall} {d : Nat} {scanned : List String}
    {s : Store} {k : String} {f : String × String}
    (h : f ∈ ((s.wait d).execute lib scanned c).1.fields k) :
    f ∈ s.fields k ∨ ∃ fields, c = .hset k fields ∧ f ∈ fields := by
  cases c with
  | hset key fields =>
    rcases mem_fields_hset h with hold | ⟨rfl, hnew⟩
    · exact .inl hold
    · exact .inr ⟨fields, rfl, hnew⟩
  | hdel key agents =>
    have hold : f ∈ (s.wait d).fields k := mem_fields_hdel h
    exact .inl hold
  | del key =>
    have hrest : f ∈ ((s.wait d).del key).fields k := h
    by_cases hk : k = key
    · subst hk
      rw [fields_del_self] at hrest
      cases hrest
    · rw [fields_del hk] at hrest
      exact .inl hrest
  | expire key seconds =>
    have hold : f ∈ (s.wait d).fields k := mem_fields_expire h
    exact .inl hold
  | expireClaims key claims now =>
    have hold : f ∈ (s.wait d).fields k := mem_fields_expire h
    exact .inl hold
  | now => exact .inl h
  | hgetall => exact .inl h
  | hget => exact .inl h
  | scan => exact .inl h
  | notify => exact .inl h

/-- A command keeps the hashes tidy. -/
theorem tidy_execute {lib : Library} {c : RedisCall} {d : Nat} {scanned : List String} {s : Store}
    (hc : WritesClaims c) (h : Tidy s) : Tidy ((s.wait d).execute lib scanned c).1 := by
  intro k hplain f hf
  rcases mem_fields_execute hf with hold | ⟨fields, rfl, hnew⟩
  · exact h k hplain f hold
  · exact hc hplain f hnew

theorem tidy_perform {lib : Library} {s : Store} (h : Tidy s) (i : ClaimInput) :
    Tidy (s.perform lib i).1 :=
  Only.run (fun _ _ _ _ hc ht => tidy_execute hc ht) (only_writesClaims lib i.op) i.env h

/-- The calls of an operation come where the hashes are tidy. -/
theorem tidy_along {lib : Library} {s : Store} (h : Tidy s) (i : ClaimInput) :
    (i.op.program lib).Along (serve lib) (fun _ _ t => Tidy t) i.env s :=
  Only.along (fun _ _ _ _ hc ht => tidy_execute hc ht) (only_writesClaims lib i.op) i.env h

/-- **The hashes stay tidy.** -/
theorem tidy_exec {lib : Library} {s : Store} (h : Tidy s) (is : List ClaimInput) :
    Tidy ((claimBus lib).exec s is).1 :=
  (claimBus lib).exec_induction (P := fun _ t _ => Tidy t) h
    (fun _ _ _ i ht => tidy_perform ht i) is

theorem tidy_empty : Tidy {} := by
  intro key _ f hf
  cases hf

/-! ### Renewed claims -/

def nul : Char := Char.ofNat 0

theorem rejectNulBytes_eq_ok {val name : String} :
    rejectNulBytes val name = .ok () ↔ nul ∉ val.toList := by
  unfold rejectNulBytes Text.containsChar
  split
  · simp_all [nul]
  · simp_all [nul]

theorem nul_notMem_padded (width n : Nat) : nul ∉ Cloud.padded width n := by
  intro hmem
  rcases List.mem_append.1 hmem with hzero | hdigit
  · have hchar := (List.mem_replicate.1 hzero).2
    cases hchar
  · have hchar : nul.isDigit = true :=
      Nat.isDigit_of_mem_toDigits (by decide) (by decide) hdigit
    cases hchar

theorem nul_notMem_yearDigits (year : Nat) : nul ∉ yearDigits year := by
  unfold yearDigits
  split
  · exact nul_notMem_padded 4 year
  · intro hmem
    rcases List.mem_cons.1 hmem with hsign | hdigit
    · cases hsign
    · have hchar : nul.isDigit = true :=
        Nat.isDigit_of_mem_toDigits (by decide) (by decide) hdigit
      cases hchar

/-- A timestamp has no NUL byte. -/
theorem nul_notMem_formatTimestamp (t : Nat) : nul ∉ (formatTimestamp t).toList := by
  have hdash : nul ≠ '-' := by decide
  have ht : nul ≠ 'T' := by decide
  have hcolon : nul ≠ ':' := by decide
  have hdot : nul ≠ '.' := by decide
  have hz : nul ≠ 'Z' := by decide
  simp only [formatTimestamp, String.toList_ofList, List.mem_append, List.mem_cons,
    nul_notMem_padded, nul_notMem_yearDigits, hdash, ht, hcolon, hdot, hz, List.not_mem_nil,
    or_self, not_false_eq_true]

theorem computeExpiry_eq_ok {now : Nat} {ttlSeconds : UInt64} {text : String}
    (h : computeExpiry now ttlSeconds = .ok text) :
    text = formatTimestamp (now + max ttlSeconds.toNat 1 * nanosPerSecond) := by
  unfold computeExpiry at h
  dsimp only at h
  split at h
  · exact (Except.ok.inj h).symm
  · cases h

/-- A renewed claim can be written if the claim could. -/
theorem valid_renewed {claim : OwnershipClaim} (h : validateClaimNulFields claim = .ok ())
    {now later : Nat} {ttl : UInt64} :
    validateClaimNulFields
      { claim with
        leaseTtlSeconds := ttl
        timestamp := formatTimestamp now
        expiresAt := some (formatTimestamp later) } = .ok () := by
  simp only [validateClaimNulFields, rejectNulInFields, check_bind_eq_ok, Option.toList_some,
    List.map_cons, List.map_nil] at h ⊢
  obtain ⟨⟨hresource, hagent, hargument, -, hend⟩, hnamespace, hkind, hpath, hrepo, hthread, -⟩ := h
  have htext : ∀ t name, rejectNulBytes (formatTimestamp t) name = .ok () := fun t name =>
    rejectNulBytes_eq_ok.2 (nul_notMem_formatTimestamp t)
  exact ⟨⟨hresource, hagent, hargument, htext now _, hend⟩, hnamespace, hkind, hpath, hrepo,
    hthread, htext later _, trivial⟩

/-! ### Lists of claims -/

/-- A claim without what the operations on others may change of it. -/
def core (claim : OwnershipClaim) : OwnershipClaim :=
  { claim with
    status := .pending
    rerouteSuggestion := none }

/-- The claims can be written, each under a name of its own. -/
structure Sound (claims : List OwnershipClaim) : Prop where
  valid : ∀ claim ∈ claims, validateClaimNulFields claim = .ok ()
  agents : claims.Pairwise fun a b => a.agent ≠ b.agent

/-- However far the claims are written, this one is: those before it and itself can be, and no other
has its name. -/
structure Keeps (claim : OwnershipClaim) (claims : List OwnershipClaim) : Prop where
  agents : claims.Pairwise fun a b => a.agent ≠ b.agent
  written : ∃ before same after, claims = before ++ same :: after ∧ core same = core claim ∧
    ∀ other ∈ same :: before, validateClaimNulFields other = .ok ()

section Lists

variable {claim : OwnershipClaim} {claims others : List OwnershipClaim}

theorem agent_of_core {a b : OwnershipClaim} (h : core a = core b) : a.agent = b.agent := by
  have hcore : (core a).agent = (core b).agent := by rw [h]
  exact hcore

theorem valid_of_core {a b : OwnershipClaim} (h : core a = core b)
    (ha : validateClaimNulFields a = .ok ()) : validateClaimNulFields b = .ok () := by
  have hcore : validateClaimNulFields (core a) = validateClaimNulFields (core b) := by rw [h]
  exact hcore.symm.trans ha

theorem expiry_of_core {lib : Library} {a b : OwnershipClaim} (h : core a = core b) :
    expiry lib a = expiry lib b := by
  have hcore : expiry lib (core a) = expiry lib (core b) := by rw [h]
  exact hcore

theorem Sound.keeps (h : Sound claims) {same : OwnershipClaim} (hmem : same ∈ claims)
    (hcore : core same = core claim) : Keeps claim claims where
  agents := h.agents
  written := by
    obtain ⟨before, after, rfl⟩ := List.append_of_mem hmem
    refine ⟨before, same, after, rfl, hcore, fun other hother => h.valid other ?_⟩
    rcases List.mem_cons.1 hother with rfl | hbefore
    · exact List.mem_append_right _ List.mem_cons_self
    · exact List.mem_append_left _ hbefore

theorem Keeps.ne_nil (h : Keeps claim claims) : claims ≠ [] := by
  obtain ⟨before, same, after, rfl, -⟩ := h.written
  simp

theorem agents_congr (h : claims.Pairwise fun a b => a.agent ≠ b.agent)
    (hnames : others.map OwnershipClaim.agent = claims.map OwnershipClaim.agent) :
    others.Pairwise fun a b => a.agent ≠ b.agent := by
  rw [← List.pairwise_map (f := OwnershipClaim.agent) (R := (· ≠ ·))] at h ⊢
  rwa [hnames]

theorem map_agent_of_cores (hcores : others.map core = claims.map core) :
    others.map OwnershipClaim.agent = claims.map OwnershipClaim.agent := by
  have hmap := congrArg (List.map OwnershipClaim.agent) hcores
  rwa [List.map_map, List.map_map] at hmap

/-- Claims that differ in what may change. -/
theorem Keeps.congr (h : Keeps claim claims) (hcores : others.map core = claims.map core) :
    Keeps claim others where
  agents := agents_congr h.agents (map_agent_of_cores hcores)
  written := by
    obtain ⟨before, same, after, rfl, hsame, hvalid⟩ := h.written
    rw [List.map_append, List.map_cons] at hcores
    obtain ⟨before', rest', rfl, hbefore, hrest⟩ := List.map_eq_append_iff.1 hcores
    obtain ⟨same', after', rfl, hsame', -⟩ := List.map_eq_cons_iff.1 hrest
    refine ⟨before', same', after', rfl, hsame'.trans hsame, fun other hother => ?_⟩
    rcases List.mem_cons.1 hother with rfl | hmem
    · exact valid_of_core hsame'.symm (hvalid _ List.mem_cons_self)
    · obtain ⟨old, hold, hcore⟩ : ∃ old ∈ before, core old = core other := by
        rw [← List.mem_map, ← hbefore]
        exact List.mem_map_of_mem hmem
      exact valid_of_core hcore (hvalid old (List.mem_cons_of_mem _ hold))

theorem map_core_recompute (claims : List OwnershipClaim) :
    (recomputeClaimStatuses claims).map core = claims.map core := by
  have hcore : ∀ entry : OwnershipClaim × Nat, core { entry.1 with
      status := if conflicted claims entry.1 entry.2 then .contested else .granted } =
        core entry.1 := fun _ => rfl
  simp only [recomputeClaimStatuses, List.map_map, Function.comp_def, hcore]
  rw [← Function.comp_def, ← List.map_map, List.zipIdx_map_fst]

theorem map_agent_recompute (claims : List OwnershipClaim) :
    (recomputeClaimStatuses claims).map OwnershipClaim.agent =
      claims.map OwnershipClaim.agent := map_agent_of_cores (map_core_recompute claims)

theorem map_core_outcome (winner : String) (claims : List OwnershipClaim) :
    (claims.map (outcome winner)).map core = claims.map core := by
  rw [List.map_map]
  rfl

theorem Sound.filter (h : Sound claims) (p : OwnershipClaim → Bool) : Sound (claims.filter p) where
  valid other hother := h.valid other (List.mem_filter.1 hother).1
  agents := h.agents.filter _

/-- A new claim behind the others. -/
theorem Keeps.append (h : Keeps claim claims) {new : OwnershipClaim}
    (hnew : ∀ other ∈ claims, other.agent ≠ new.agent) : Keeps claim (claims ++ [new]) where
  agents := by
    refine List.pairwise_append.2 ⟨h.agents, List.pairwise_singleton _ _, fun a ha b hb => ?_⟩
    rw [List.mem_singleton.1 hb]
    exact hnew a ha
  written := by
    obtain ⟨before, same, after, rfl, hsame, hvalid⟩ := h.written
    exact ⟨before, same, after ++ [new], by simp, hsame, hvalid⟩

theorem mem_renewFirst {renewed other : OwnershipClaim} (h : other ∈ renewFirst renewed claims) :
    other ∈ claims ∨ other = renewed := by
  induction claims with
  | nil => cases h
  | cons head claims ih =>
    unfold renewFirst at h
    split at h
    · rcases List.mem_cons.1 h with rfl | htail
      · exact .inr rfl
      · exact .inl (List.mem_cons_of_mem _ htail)
    · rcases List.mem_cons.1 h with rfl | htail
      · exact .inl List.mem_cons_self
      · exact (ih htail).imp_left (List.mem_cons_of_mem _)

/-- The claims of the others stay. -/
theorem mem_renewFirst_of_mem {renewed other : OwnershipClaim} (h : other ∈ claims)
    (hne : other.agent ≠ renewed.agent) : other ∈ renewFirst renewed claims := by
  induction claims with
  | nil => cases h
  | cons head claims ih =>
    unfold renewFirst
    split
    · rename_i hagent
      rcases List.mem_cons.1 h with rfl | htail
      · exact absurd hagent hne
      · exact List.mem_cons_of_mem _ htail
    · rcases List.mem_cons.1 h with rfl | htail
      · exact List.mem_cons_self
      · exact List.mem_cons_of_mem _ (ih htail)

theorem map_agent_renewFirst (renewed : OwnershipClaim) (claims : List OwnershipClaim) :
    (renewFirst renewed claims).map OwnershipClaim.agent = claims.map OwnershipClaim.agent := by
  induction claims with
  | nil => rfl
  | cons head claims ih =>
    unfold renewFirst
    split
    · rename_i hagent
      rw [List.map_cons, List.map_cons, hagent]
    · rw [List.map_cons, List.map_cons, ih]

theorem Sound.renewFirst (h : Sound claims) {renewed : OwnershipClaim}
    (hvalid : validateClaimNulFields renewed = .ok ()) : Sound (renewFirst renewed claims) where
  valid other hother := by
    rcases mem_renewFirst hother with hold | rfl
    · exact h.valid other hold
    · exact hvalid
  agents := agents_congr h.agents (map_agent_renewFirst renewed claims)

end Lists

/-! ### What a load gives -/

/-- A claim without an end. -/
def endlessClaim (resource agent : String) : OwnershipClaim where
  resource
  agent
  priorityArgument := ""
  timestamp := ""
  status := .granted
  mode := .exclusive
  leaseNamespace := none
  scopeKind := none
  scopePath := none
  repoScopes := []
  threadId := none
  leaseTtlSeconds := 1
  expiresAt := none
  scope := .repo
  rerouteSuggestion := none

section Load

variable {lib : Library} {now : Nat}

theorem activeClaims_eq (all : List (String × String)) :
    activeClaims lib all now =
      all.filterMap fun f => (lib.readClaim f.2).filter fun claim => !claimExpired lib claim now := by
  unfold activeClaims readEntries
  induction all with
  | nil => rfl
  | cons f all ih =>
    rw [List.filterMap_cons, List.filterMap_cons]
    cases hread : lib.readClaim f.2 with
    | none => simpa using ih
    | some claim =>
      cases hexpired : claimExpired lib claim now with
      | true => simpa [hexpired, Option.filter] using ih
      | false => simpa [hexpired, Option.filter] using ih

/-- The active claims of a tidy hash. -/
theorem sound_activeClaims {h : Hash} (htidy : ∀ f ∈ h.rows, Written f) :
    Sound (sortClaims (activeClaims lib h.rows now)) where
  valid claim hclaim := by
    obtain ⟨f, hf, hread, -⟩ := mem_activeClaims.1 (mem_sortClaims.1 hclaim)
    obtain ⟨written, hvalid, rfl⟩ := htidy f hf
    rw [lib.readClaim_text] at hread
    exact Option.some.inj hread ▸ hvalid
  agents := by
    have hsymm : ∀ {a b : OwnershipClaim}, a.agent ≠ b.agent → b.agent ≠ a.agent := Ne.symm
    refine ((List.mergeSort_perm _ _).pairwise_iff hsymm).2 ?_
    rw [activeClaims_eq, List.pairwise_filterMap]
    refine h.unique.imp_of_mem ?_
    intro f g hf hg hne a ha b hb
    obtain ⟨written, -, rfl⟩ := htidy f hf
    obtain ⟨written', -, rfl⟩ := htidy g hg
    rw [lib.readClaim_text] at ha hb
    obtain rfl := Option.some.inj (Option.filter_eq_some_iff.1 ha).1
    obtain rfl := Option.some.inj (Option.filter_eq_some_iff.1 hb).1
    exact hne

end Load

end AgentHub.Channels
