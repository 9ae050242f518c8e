import AgentHub.Catalog.Identifiers
import AgentHub.Json.Equiv.Utf8

/-!
# Identifiers of different records differ

The hashed bytes are a frame of the domain name and the components (`idBytes_eq_frame`), which can be
read back.  The domain name tells the kind of the record, an optional part is read off its two
components (`presence_injective`), and every other component is a text or a digest.

So two calls of any kind that give one identifier are about one record (`identifier_injective`).
-/

namespace AgentHub.Catalog

open AgentHub.Json AgentHub.Outbox AgentHub.Framing

/-! ### The encoding -/

theorem foldl_updateLengthPrefixed (hasher : List UInt8) (components : List (List UInt8)) :
    components.foldl updateLengthPrefixed hasher = hasher ++ lengthCode.frame components := by
  induction components generalizing hasher with
  | nil => rw [List.foldl_nil, LengthCode.frame_nil, List.append_nil]
  | cons value components ih =>
    rw [List.foldl_cons, ih, updateLengthPrefixed, LengthCode.frame_cons, List.append_assoc,
      List.append_assoc]

/-- The domain name is framed like a component. -/
theorem idBytes_eq_frame (domain : List UInt8) (components : List (List UInt8)) :
    idBytes domain components = lengthCode.frame (domain :: components) := by
  rw [idBytes, foldl_updateLengthPrefixed, updateLengthPrefixed, LengthCode.frame_cons,
    List.nil_append, List.append_assoc]

/-- Components shorter than `2 ^ 64` bytes are read back from the bytes. -/
theorem idBytes_injective {domain domain' : List UInt8} {components components' : List (List UInt8)}
    (hlen : ∀ field ∈ domain :: components, field.length < 2 ^ 64)
    (hlen' : ∀ field ∈ domain' :: components', field.length < 2 ^ 64)
    (h : idBytes domain components = idBytes domain' components') :
    domain = domain' ∧ components = components' := by
  rw [idBytes_eq_frame, idBytes_eq_frame] at h
  exact List.cons.inj (lengthCode.frame_injective hlen hlen' h)

/-! ### The components -/

theorem asBytes_injective {s t : String} (h : asBytes s = asBytes t) : s = t :=
  String.toList_injective (utf8_injective h)

theorem digest_injective {d d' : Digest} (h : d.bytes = d'.bytes) : d = d' := by
  cases d
  cases d'
  congr

/-- A missing part and an empty one differ in the first component. -/
theorem presence_injective {a b : Option (List UInt8)} (h : presence a = presence b) : a = b := by
  cases a <;> cases b
  case none.none => rfl
  case none.some value => cases h
  case some.none value => cases h
  case some.some value value' => exact congrArg some (Prod.mk.inj h).2

theorem source_injective {m m' p p' k k' : String} {d d' : Digest}
    (h : sourceComponents m p k d = sourceComponents m' p' k' d') :
    m = m' ∧ p = p' ∧ k = k' ∧ d = d' := by
  simp only [sourceComponents, List.cons.injEq, and_true] at h
  exact ⟨asBytes_injective h.1, asBytes_injective h.2.1, asBytes_injective h.2.2.1,
    digest_injective h.2.2.2⟩

theorem session_injective {d d' : Digest} {s s' v v' p p' : String}
    (h : sessionComponents d s v p = sessionComponents d' s' v' p') :
    d = d' ∧ s = s' ∧ v = v' ∧ p = p' := by
  simp only [sessionComponents, List.cons.injEq, and_true] at h
  exact ⟨digest_injective h.1, asBytes_injective h.2.1, asBytes_injective h.2.2.1,
    asBytes_injective h.2.2.2⟩

theorem event_injective {d d' : Digest} {e e' : String}
    (h : eventComponents d e = eventComponents d' e') : d = d' ∧ e = e' := by
  simp only [eventComponents, List.cons.injEq, and_true] at h
  exact ⟨digest_injective h.1, asBytes_injective h.2⟩

theorem artifact_injective {s s' : Option Digest} {k k' : String} {l l' : Option String}
    {d d' : Digest} {p p' : String}
    (h : artifactComponents s k l d p = artifactComponents s' k' l' d' p') :
    s = s' ∧ k = k' ∧ l = l' ∧ d = d' ∧ p = p' := by
  simp only [artifactComponents, List.cons.injEq, and_true] at h
  obtain ⟨hs, hsession, hk, hl, hlocator, hd, hp⟩ := h
  have hsessions := presence_injective (Prod.ext hs hsession)
  have hlocators := presence_injective (Prod.ext hl hlocator)
  exact ⟨Option.map_injective (fun _ _ => digest_injective) hsessions, asBytes_injective hk,
    Option.map_injective (fun _ _ => asBytes_injective) hlocators, digest_injective hd,
    asBytes_injective hp⟩

/-! ### The domain names -/

theorem domains_nodup : [sourceDomain, sessionDomain, eventDomain, artifactDomain].Nodup := by
  decide

theorem length_domain (call : IdCall) : call.domain.length < 2 ^ 64 := by
  have hall : ∀ domain ∈ [sourceDomain, sessionDomain, eventDomain, artifactDomain],
      domain.length < 2 ^ 64 := by decide
  apply hall
  cases call <;> simp [IdCall.domain]

/-- A call is known by its domain name and its components. -/
theorem call_injective {call call' : IdCall} (hdomain : call.domain = call'.domain)
    (h : call.components = call'.components) : call = call' := by
  -- the domain tells which of the four it is
  have hdistinct := domains_nodup
  simp only [List.nodup_cons, List.mem_cons, List.not_mem_nil, or_false, not_or] at hdistinct
  obtain ⟨⟨hss, hse, hsa⟩, ⟨hne, hna⟩, hea, -⟩ := hdistinct
  cases call <;> cases call'
  case source.source =>
    obtain ⟨rfl, rfl, rfl, rfl⟩ := source_injective h
    rfl
  case session.session =>
    obtain ⟨rfl, rfl, rfl, rfl⟩ := session_injective h
    rfl
  case event.event =>
    obtain ⟨rfl, rfl⟩ := event_injective h
    rfl
  case artifact.artifact =>
    obtain ⟨rfl, rfl, rfl, rfl, rfl⟩ := artifact_injective h
    rfl
  case source.session => exact absurd hdomain hss
  case source.event => exact absurd hdomain hse
  case source.artifact => exact absurd hdomain hsa
  case session.source => exact absurd hdomain.symm hss
  case session.event => exact absurd hdomain hne
  case session.artifact => exact absurd hdomain hna
  case event.source => exact absurd hdomain.symm hse
  case event.session => exact absurd hdomain.symm hne
  case event.artifact => exact absurd hdomain hea
  case artifact.source => exact absurd hdomain.symm hsa
  case artifact.session => exact absurd hdomain.symm hna
  case artifact.event => exact absurd hdomain.symm hea

/-! ### The identifiers -/

/-- **One identifier for one call.**  Two calls, of one function or of two, return one identifier only
if they are the same function with equal arguments, where SHA-256 does not map the two texts hashed to
one digest and no argument has `2 ^ 64` bytes. -/
theorem identifier_injective (sha256 : List UInt8 → Digest) (call call' : IdCall)
    (hlen : ∀ field ∈ call.components, field.length < 2 ^ 64)
    (hlen' : ∀ field ∈ call'.components, field.length < 2 ^ 64)
    (hsha : sha256 call.bytes = sha256 call'.bytes → call.bytes = call'.bytes)
    (h : call.run sha256 = call'.run sha256) : call = call' := by
  rw [IdCall.run_eq, IdCall.run_eq] at h
  obtain ⟨hdomain, hcomponents⟩ := idBytes_injective
    (List.forall_mem_cons.2 ⟨length_domain call, hlen⟩)
    (List.forall_mem_cons.2 ⟨length_domain call', hlen'⟩) (hsha h)
  exact call_injective hdomain hcomponents

/-! An artifact without a session, with an empty locator. -/

def sampleBytes : Digest where
  bytes := (List.range 32).map UInt8.ofNat
  length_eq := rfl

def sampleArtifact : IdCall := .artifact none "log" (some "") sampleBytes "p1"

/-- The digest of `sampleArtifact.bytes`. -/
def sampleId : Digest where
  bytes := [55, 186, 113, 193, 140, 62, 173, 128, 122, 254, 39, 103, 83, 55, 240, 17, 118, 138, 116,
    89, 124, 42, 143, 243, 244, 213, 33, 172, 47, 117, 41, 202]
  length_eq := rfl

theorem identifier_injective_sampleArtifact :
    (.artifact none "log" (some "") sampleBytes "p1" : IdCall) = sampleArtifact :=
  identifier_injective (fun _ => sampleId) (.artifact none "log" (some "") sampleBytes "p1") sampleArtifact
    (by decide) (by decide) (fun _ => rfl) rfl

end AgentHub.Catalog
