import AgentHub.Json.Equiv.Document
import AgentHub.Routes.Configuration
import AgentHub.Routes.Equiv.Auth

/-!
# The configured candidates say what their entries say

The entries of a tier are read in two passes: `parseEntries` keeps the first entry of each canonical
URL, and `collectSpecs` the first of each URL as it is written.  Both only drop entries that agree
with one they keep (`Keeps`), so the spec `buildCandidates` looks a URL up for is, up to the URL's
spelling, every entry that names its hub.

`resolveCandidateTiers_consistent` is the whole: of what is accepted, and of what is not.
-/

namespace AgentHub.Routes

open AgentHub.Json

/-! ### Entries of a tier -/

section Named

variable (debug : String → String)

/-- The entries of a JSON list that name a candidate, whatever the rest of the list is. -/
def entrySpecs (index : Nat) (entries : List Value) : List CandidateSpec :=
  (entries.zipIdx index).filterMap fun p => (parseEntry debug p.2 p.1).toOption.join

/-- Every entry of a JSON list can be read. -/
def EntriesRead (index : Nat) (entries : List Value) : Prop :=
  ∀ p ∈ entries.zipIdx index, ∃ spec, parseEntry debug p.2 p.1 = .ok spec

def valueSpecs : Value → List CandidateSpec
  | .arr entries => entrySpecs debug 0 entries
  | _ => []

def ValueRead : Value → Prop
  | .arr entries => EntriesRead debug 0 entries
  | _ => False

/-- The entries of the first tier that is given, before any is dropped. -/
def namedSpecs (doubles : Doubles) (cfg : ConfigFile) (json list single : Option String) :
    List CandidateSpec :=
  match json with
  | some raw => ((uniqueJson doubles raw).map (valueSpecs debug)).getD []
  | none =>
    if splitUrls list ≠ [] then legacySpecs (splitUrls list)
    else match givenUrl single with
      | some url => legacySpecs [url]
      | none =>
        match (cfg.serverUrls.map (valueSpecs debug)).getD [] with
        | [] => legacySpecs (givenUrl cfg.serverUrl).toList
        | spec :: specs => spec :: specs

/-- The JSON of the first tier that is given, if it is one of JSON, is a list of entries. -/
def TierRead (doubles : Doubles) (cfg : ConfigFile) (json list single : Option String) : Prop :=
  match json with
  | some raw => ∃ value, uniqueJson doubles raw = some value ∧ ValueRead debug value
  | none => splitUrls list = [] → givenUrl single = none →
      ∀ value ∈ cfg.serverUrls, ValueRead debug value

end Named

/-- The canonical form of a URL. -/
def keyOf (crate : UrlCrate) (url : String) : Option String :=
  (parseHubUrl crate url false).toOption.map (baseKey crate)

/-- What the candidates of a configuration are to the entries that name them. -/
structure Consistent (crate : UrlCrate) (named : List CandidateSpec)
    (candidates : List HubCandidate) : Prop where
  parses : ∀ c ∈ candidates, (keyOf crate c.url).isSome
  apart : (candidates.map fun c => keyOf crate c.url).Nodup
  /-- Some entry names the hub of each candidate. -/
  described : ∀ c ∈ candidates, ∃ s ∈ named, keyOf crate s.url = keyOf crate c.url
  /-- Every entry that names it says what the candidate says. -/
  carries : ∀ i c, candidates[i]? = some c → ∀ s ∈ named, keyOf crate s.url = keyOf crate c.url →
    c.role = s.role.getD (defaultRole i) ∧ c.auth = s.auth ∧ c.sites = s.sites ∧ c.hub = s.hub
  /-- No entry is without its candidate. -/
  covers : ∀ s ∈ named, ∃ c ∈ candidates, keyOf crate c.url = keyOf crate s.url
  authority : (candidates.filter fun c => c.role = .authoritative).length ≤ 1 ∨
    ∃ hub, ∀ c ∈ candidates, c.role = .authoritative → c.hub = some hub

variable {crate : UrlCrate} {doubles : Doubles} {debug : String → String}

theorem CandidateSpec.agrees_iff {a b : CandidateSpec} :
    a.agrees b = true ↔ a.role = b.role ∧ a.auth = b.auth ∧ a.sites = b.sites ∧ a.hub = b.hub := by
  simp [CandidateSpec.agrees, and_assoc]

theorem CandidateSpec.agrees_self (a : CandidateSpec) : a.agrees a = true :=
  CandidateSpec.agrees_iff.2 ⟨rfl, rfl, rfl, rfl⟩

/-! ### Dropping duplicates -/

/-- What is kept of a list of entries: some of them, and for each of them one that agrees. -/
structure Keeps (crate : UrlCrate) (named kept : List CandidateSpec) : Prop where
  subset : kept ⊆ named
  agrees : ∀ s ∈ named, ∃ t ∈ kept, keyOf crate t.url = keyOf crate s.url ∧ t.agrees s = true

theorem keeps_self (specs : List CandidateSpec) : Keeps crate specs specs where
  subset := List.Subset.refl _
  agrees := fun s hs => ⟨s, hs, rfl, s.agrees_self⟩

theorem entrySpecs_cons (index : Nat) (entry : Value) (entries : List Value) :
    entrySpecs debug index (entry :: entries) =
      (parseEntry debug index entry).toOption.join.toList ++ entrySpecs debug (index + 1) entries := by
  unfold entrySpecs
  rw [List.zipIdx_cons, List.filterMap_cons]
  cases (parseEntry debug index entry).toOption.join <;> rfl

theorem entriesRead_cons {index : Nat} {entry : Value} {entries : List Value}
    {spec : Option CandidateSpec} (hentry : parseEntry debug index entry = .ok spec)
    (hrest : EntriesRead debug (index + 1) entries) : EntriesRead debug index (entry :: entries) := by
  intro p hp
  rw [List.zipIdx_cons] at hp
  rcases List.mem_cons.1 hp with rfl | hp
  · exact ⟨spec, hentry⟩
  · exact hrest p hp

/-- The loop keeps the first entry of each hub that was not seen before it. -/
theorem parseEntries_spec {entries : List Value} : ∀ {index : Nat}
    {seen : List (String × CandidateSpec)} {specs : List CandidateSpec},
    parseEntries crate debug index seen entries = .ok specs →
      EntriesRead debug index entries ∧ specs ⊆ entrySpecs debug index entries ∧
      ∀ s ∈ entrySpecs debug index entries,
        (∃ t ∈ specs, keyOf crate t.url = keyOf crate s.url ∧ t.agrees s = true) ∨
        ∃ key t, keyOf crate s.url = some key ∧ seen.lookup key = some t ∧ t.agrees s = true := by
  induction entries with
  | nil =>
    intro index seen specs h
    cases h
    exact ⟨by simp [EntriesRead], by simp, by simp [entrySpecs]⟩
  | cons entry entries ih =>
    intro index seen specs h
    unfold parseEntries at h
    cases hentry : parseEntry debug index entry with
    | error e => rw [hentry] at h; cases h
    | ok found =>
    rw [hentry] at h
    cases found with
    | none =>
      obtain ⟨hread, hsub, hall⟩ := ih h
      have hcons : entrySpecs debug index (entry :: entries) =
          entrySpecs debug (index + 1) entries := by
        rw [entrySpecs_cons, hentry]
        rfl
      rw [hcons]
      exact ⟨entriesRead_cons hentry hread, hsub, hall⟩
    | some spec =>
      have hcons : entrySpecs debug index (entry :: entries) =
          spec :: entrySpecs debug (index + 1) entries := by
        rw [entrySpecs_cons, hentry]
        rfl
      rw [hcons]
      cases hurl : parseHubUrl crate spec.url false with
      | error e => simp only [hurl] at h; cases h
      | ok url =>
      have hkey : keyOf crate spec.url = some (baseKey crate url) := by
        rw [keyOf, hurl]
        rfl
      simp only [hurl] at h
      cases hprevious : seen.lookup (baseKey crate url) with
      | some previous =>
        simp only [hprevious] at h
        split at h
        · next hagrees =>
          obtain ⟨hread, hsub, hall⟩ := ih h
          refine ⟨entriesRead_cons hentry hread, fun t ht => List.mem_cons_of_mem _ (hsub ht), ?_⟩
          intro s hs
          rcases List.mem_cons.1 hs with rfl | hs
          · exact .inr ⟨_, previous, hkey, hprevious, hagrees⟩
          · exact hall s hs
        · cases h
      | none =>
        simp only [hprevious] at h
        cases hrest : parseEntries crate debug (index + 1) ((baseKey crate url, spec) :: seen)
          entries with
        | error e => rw [hrest] at h; cases h
        | ok rest =>
        rw [hrest] at h
        cases h
        obtain ⟨hread, hsub, hall⟩ := ih hrest
        refine ⟨entriesRead_cons hentry hread, List.cons_subset_cons _ hsub, ?_⟩
        intro s hs
        rcases List.mem_cons.1 hs with rfl | hs
        · exact .inl ⟨s, List.mem_cons_self, rfl, s.agrees_self⟩
        rcases hall s hs with ⟨t, ht, hkeys, hagrees⟩ | ⟨key, t, hs', hlookup, hagrees⟩
        · exact .inl ⟨t, List.mem_cons_of_mem _ ht, hkeys, hagrees⟩
        rw [List.lookup_cons] at hlookup
        split at hlookup
        · next heq =>
          -- the entry was dropped for the one kept here
          cases hlookup
          refine .inl ⟨spec, List.mem_cons_self, ?_, hagrees⟩
          rw [hkey, hs', eq_of_beq heq]
        · exact .inr ⟨key, t, hs', hlookup, hagrees⟩

theorem parseCandidateEntries_spec {value : Value} {specs : List CandidateSpec}
    (h : parseCandidateEntries crate debug value = .ok specs) :
    ValueRead debug value ∧ Keeps crate (valueSpecs debug value) specs := by
  cases value with
  | arr entries =>
    obtain ⟨hread, hsub, hall⟩ := parseEntries_spec h
    refine ⟨hread, hsub, fun s hs => ?_⟩
    rcases hall s hs with hkept | ⟨key, t, -, hlookup, -⟩
    · exact hkept
    · cases hlookup
  | _ => cases h

/-- What is kept is empty only where there is nothing to keep. -/
theorem Keeps.eq_nil {named : List CandidateSpec} (h : Keeps crate named []) : named = [] := by
  rw [List.eq_nil_iff_forall_not_mem]
  intro s hs
  obtain ⟨t, ht, -⟩ := h.agrees s hs
  cases ht

theorem tierEntries_spec {cfg : ConfigFile} {json list single : Option String}
    {entries : List CandidateSpec}
    (h : tierEntries crate doubles debug cfg json list single = .ok entries) :
    TierRead debug doubles cfg json list single ∧
      Keeps crate (namedSpecs debug doubles cfg json list single) entries ∧
      (entries = [] → json = none) := by
  unfold tierEntries at h
  unfold TierRead namedSpecs
  cases json with
  | some raw =>
    simp only [parseCandidateJson] at h ⊢
    cases hvalue : uniqueJson doubles raw with
    | none => rw [hvalue] at h; cases h
    -- the JSON list wins over both others
    | some value =>
      rw [hvalue] at h
      rw [Option.map_some, Option.getD_some]
      cases hparsed : parseCandidateEntries crate debug value with
      | error e => simp only [hparsed] at h; cases h
      | ok specs =>
        obtain ⟨hread, hkeeps⟩ := parseCandidateEntries_spec hparsed
        cases specs with
        | nil => simp only [hparsed] at h; cases h
        | cons spec specs =>
          simp only [hparsed] at h
          cases h
          exact ⟨⟨value, rfl, hread⟩, hkeeps, by simp⟩
  | none =>
    simp only at h ⊢
    by_cases hlist : splitUrls list = []
    · rw [if_neg (not_not.2 hlist)] at h ⊢
      -- then the single url
      cases hsingle : givenUrl single with
      | some url =>
        rw [hsingle] at h
        cases h
        exact ⟨by simp, keeps_self _, fun _ => trivial⟩
      | none =>
        rw [hsingle] at h
        cases hurls : cfg.serverUrls with
        | none =>
          rw [hurls] at h
          cases h
          exact ⟨by simp, keeps_self _, fun _ => trivial⟩
        | some value =>
          simp only [hurls] at h
          -- then the configuration file
          cases hparsed : parseCandidateEntries crate debug value with
          | error e => simp only [hparsed] at h; cases h
          | ok specs =>
            obtain ⟨hread, hkeeps⟩ := parseCandidateEntries_spec hparsed
            refine ⟨by simpa using fun _ => hread, ?_, fun _ => trivial⟩
            -- an empty list in the file leaves nothing
            cases specs with
            | nil =>
              simp only [hparsed] at h
              cases h
              simp only [Option.map_some, Option.getD_some, hkeeps.eq_nil]
              exact keeps_self _
            | cons spec specs =>
              simp only [hparsed] at h
              cases h
              simp only [Option.map_some, Option.getD_some]
              cases hnamed : valueSpecs debug value with
              | nil =>
                have := hkeeps.subset (List.mem_cons_self)
                rw [hnamed] at this
                cases this
              | cons s ss =>
                rw [hnamed] at hkeeps
                exact hkeeps
    · -- the comma list comes before the single url
      rw [if_pos hlist] at h ⊢
      cases h
      exact ⟨fun hnil => absurd hnil hlist, keeps_self _, fun _ => trivial⟩

/-! ### Specs by URL -/

/-- A spec of a new URL is found under it, and the others where they were. -/
theorem lookup_orderedInsert {specs : Specs} {key : String} {spec : CandidateSpec}
    (hnew : specs.lookup key = none) (u : String) :
    (specs.orderedInsert (fun a b => a.1 ≤ b.1) (key, spec)).lookup u =
      if u = key then some spec else specs.lookup u := by
  induction specs with
  | nil => by_cases hu : u = key <;> simp [hu]
  | cons head tail ih =>
    obtain ⟨hne, htail⟩ : (key == head.1) = false ∧ tail.lookup key = none := by
      rw [List.lookup_cons] at hnew
      split at hnew
      · cases hnew
      · next hne => exact ⟨by simpa using hne, hnew⟩
    rw [List.orderedInsert]
    split
    · rw [List.lookup_cons]
      by_cases hu : u = key
      · simp [hu]
      · rw [beq_false_of_ne hu, if_neg hu]
    · rw [List.lookup_cons, List.lookup_cons, ih htail]
      by_cases hu : u = key
      · subst hu
        simp [hne]
      · simp [hu]

/-- The entries of a tier are found under their URLs, which are all the URLs there are. -/
structure Collected (urls : List String) (specs : Specs) (entries : List CandidateSpec) : Prop where
  found : ∀ e ∈ entries, specs.lookup e.url = some e
  listed : ∀ e ∈ entries, e.url ∈ urls
  named : ∀ u ∈ urls, ∃ e ∈ entries, e.url = u

theorem collectSpecs_spec {entries : List CandidateSpec} : ∀ {urls urls' : List String}
    {specs specs' : Specs} {done : List CandidateSpec}, Collected urls specs done →
    (∀ u, u ∉ urls → specs.lookup u = none) →
    collectSpecs urls specs entries = .ok (urls', specs') →
      Collected urls' specs' (done ++ entries) := by
  induction entries with
  | nil =>
    intro urls urls' specs specs' done hdone _ h
    cases h
    rwa [List.append_nil]
  | cons entry entries ih =>
    intro urls urls' specs specs' done hdone hnone h
    unfold collectSpecs at h
    rw [← List.singleton_append, ← List.append_assoc]
    cases hlookup : specs.lookup entry.url with
    | some existing =>
      simp only [hlookup] at h
      -- the url was there with the same specification
      split at h
      · next heq =>
        refine ih ⟨?_, ?_, ?_⟩ hnone h
        · intro e he
          rcases List.mem_append.1 he with he | he
          · exact hdone.found e he
          · rw [List.mem_singleton.1 he, hlookup, heq]
        · intro e he
          rcases List.mem_append.1 he with he | he
          · exact hdone.listed e he
          · rw [List.mem_singleton.1 he]
            by_contra hnot
            rw [hnone _ hnot] at hlookup
            cases hlookup
        · intro u hu
          obtain ⟨e, he, heq⟩ := hdone.named u hu
          exact ⟨e, List.mem_append_left _ he, heq⟩
      · cases h
    | none =>
      -- a new url joins the list
      simp only [hlookup] at h
      refine ih ⟨?_, ?_, ?_⟩ ?_ h
      · intro e he
        rw [lookup_orderedInsert hlookup]
        rcases List.mem_append.1 he with he | he
        · rw [if_neg, hdone.found e he]
          intro heq
          rw [← heq, hdone.found e he] at hlookup
          cases hlookup
        · rw [List.mem_singleton.1 he, if_pos rfl]
      · intro e he
        rcases List.mem_append.1 he with he | he
        · exact List.mem_append_left _ (hdone.listed e he)
        · rw [List.mem_singleton.1 he]
          exact List.mem_append_right _ (List.mem_singleton_self _)
      · intro u hu
        rcases List.mem_append.1 hu with hu | hu
        · obtain ⟨e, he, heq⟩ := hdone.named u hu
          exact ⟨e, List.mem_append_left _ he, heq⟩
        · exact ⟨entry, by simp, (List.mem_singleton.1 hu).symm⟩
      · intro u hu
        rw [List.mem_append, List.mem_singleton, not_or] at hu
        rw [lookup_orderedInsert hlookup, if_neg hu.2]
        exact hnone u hu.1

/-- Each URL becomes the candidate its entry describes; the second look-up is never made. -/
theorem buildCandidatesFrom_spec {urls : List String} {specs : Specs} {entries : List CandidateSpec}
    (h : Collected urls specs entries) {i : Nat} {c : HubCandidate}
    (hc : (buildCandidatesFrom crate urls specs)[i]? = some c) :
    ∃ e ∈ entries, c.url = e.url ∧ c.role = e.role.getD (defaultRole i) ∧ c.auth = e.auth ∧
      c.sites = e.sites ∧ c.hub = e.hub := by
  unfold buildCandidatesFrom at hc
  rw [List.getElem?_map, List.getElem?_zipIdx] at hc
  cases hu : urls[i]? with
  | none => rw [hu] at hc; cases hc
  | some u =>
    rw [hu] at hc
    obtain ⟨e, he, rfl⟩ := h.named u (List.mem_of_getElem? hu)
    have hspec : specFor crate specs e.url = some e := by
      rw [specFor, h.found e he]
    simp only [Option.map_some, Nat.zero_add, hspec, Option.some.injEq, Option.bind_some,
      Option.getD_some] at hc
    subst hc
    exact ⟨e, he, rfl, rfl, rfl, rfl, rfl⟩

theorem url_mem_buildCandidatesFrom (crate : UrlCrate) (specs : Specs) {urls : List String}
    {u : String} (hu : u ∈ urls) : ∃ c ∈ buildCandidatesFrom crate urls specs, c.url = u := by
  obtain ⟨i, hi, rfl⟩ := List.mem_iff_getElem.1 hu
  have hp : (urls[i], i) ∈ urls.zipIdx := by
    rw [List.mem_zipIdx_iff_getElem?]
    exact List.getElem?_eq_getElem hi
  exact ⟨_, List.mem_map_of_mem hp, rfl⟩

/-! ### Authorities -/

theorem eq_of_adjacentEqual {hubs : List (Option String)} : ∀ {first : Option String},
    adjacentEqual (first :: hubs) = true → ∀ hub ∈ hubs, hub = first := by
  induction hubs with
  | nil => simp
  | cons second hubs ih =>
    intro first h hub hmem
    rw [adjacentEqual, Bool.and_eq_true, beq_iff_eq] at h
    obtain ⟨rfl, h⟩ := h
    rcases List.mem_cons.1 hmem with rfl | hmem
    · rfl
    · exact ih h hub hmem

theorem authority_of_validate {candidates : List HubCandidate}
    (h : validateCandidates crate candidates = .ok ()) :
    (candidates.filter fun c => c.role = .authoritative).length ≤ 1 ∨
      ∃ hub, ∀ c ∈ candidates, c.role = .authoritative → c.hub = some hub := by
  unfold validateCandidates at h
  cases hkeys : canonicalKeys crate [] candidates with
  | error e => rw [hkeys] at h; cases h
  | ok u =>
  -- more than one authority: all name the same hub
  rw [hkeys] at h
  simp only [bind, Except.bind] at h
  split at h
  · cases h
  · next hmany =>
    by_cases hone : (candidates.filter fun c => c.role = .authoritative).length ≤ 1
    · exact .inl hone
    right
    cases hauthorities : candidates.filter fun c => c.role = .authoritative with
    | nil => rw [hauthorities] at hone; simp at hone
    | cons first rest =>
      rw [hauthorities] at hmany hone
      simp only [not_and, not_not, not_le] at hmany hone
      obtain ⟨hsome, hadjacent⟩ := Bool.and_eq_true_iff.1 (hmany hone)
      rw [List.map_cons, List.head?_cons, Option.any_some] at hsome
      obtain ⟨hub, hhub⟩ := Option.isSome_iff_exists.1 hsome
      refine ⟨hub, fun c hc hrole => ?_⟩
      -- the first one's hub is that of all
      have hmem : c ∈ first :: rest := by
        rw [← hauthorities]
        exact List.mem_filter.2 ⟨hc, by simpa using hrole⟩
      rcases List.mem_cons.1 hmem with rfl | hmem
      · exact hhub
      · rw [eq_of_adjacentEqual hadjacent _ (List.mem_map_of_mem hmem), hhub]

/-! ### Tiers -/

/-- An accepted configuration comes of entries the tier names. -/
theorem accepted_spec {cfg : ConfigFile} {json list single : Option String}
    (h : (resolveCandidateTiers crate doubles debug cfg json list single).2 = none) :
    cfg.configurationError = none ∧ ∃ entries urls specs,
      tierEntries crate doubles debug cfg json list single = .ok entries ∧
      Collected urls specs entries ∧
      (resolveCandidateTiers crate doubles debug cfg json list single).1 =
        buildCandidatesFrom crate urls specs ∧
      validateCandidates crate (buildCandidatesFrom crate urls specs) = .ok () := by
  unfold resolveCandidateTiers at h ⊢
  cases hconfig : cfg.configurationError with
  | some error => rw [hconfig] at h; cases h
  | none =>
  cases hentries : tierEntries crate doubles debug cfg json list single with
  | error error => simp only [hconfig, hentries] at h; cases h
  | ok entries =>
  cases hspecs : collectSpecs [] [] entries with
  | error error => simp only [hconfig, hentries, hspecs] at h; cases h
  | ok found =>
  obtain ⟨urls, specs⟩ := found
  simp only [hconfig, hentries, hspecs] at h ⊢
  have hcollected : Collected urls specs ([] ++ entries) :=
    collectSpecs_spec ⟨by simp, by simp, by simp⟩ (fun _ _ => rfl) hspecs
  refine ⟨trivial, entries, urls, specs, rfl, hcollected, rfl, ?_⟩
  cases hvalidate : validateCandidates crate (buildCandidatesFrom crate urls specs) with
  | error error => rw [hvalidate] at h; cases h
  | ok u => rfl

theorem keyOf_eq_some {value : String} {url : Url} (h : parseHubUrl crate value false = .ok url) :
    keyOf crate value = some (baseKey crate url) := by
  rw [keyOf, h]
  rfl

theorem Canonical.isSome_keyOf {candidates : List HubCandidate} (h : Canonical crate candidates)
    {c : HubCandidate} (hc : c ∈ candidates) : (keyOf crate c.url).isSome := by
  obtain ⟨base, hbase⟩ := h.parses c hc
  rw [keyOf_eq_some hbase]
  rfl

theorem Canonical.nodup_keyOf {candidates : List HubCandidate} (h : Canonical crate candidates) :
    (candidates.map fun c => keyOf crate c.url).Nodup := by
  rw [List.Nodup, List.pairwise_map]
  apply h.apart.imp_of_mem
  intro c d hc hd hapart heq
  obtain ⟨a, ha⟩ := h.parses c hc
  obtain ⟨b, hb⟩ := h.parses d hd
  rw [keyOf_eq_some ha, keyOf_eq_some hb] at heq
  exact hapart a b ha hb (Option.some.inj heq)

/-- Of a list of entries and the ones kept of it, the candidates say what the entries say. -/
theorem consistent_of_keeps {named entries : List CandidateSpec} {urls : List String} {specs : Specs}
    (hkeeps : Keeps crate named entries) (hcollected : Collected urls specs entries)
    (hvalid : validateCandidates crate (buildCandidatesFrom crate urls specs) = .ok ()) :
    Consistent crate named (buildCandidatesFrom crate urls specs) := by
  have hcanonical := canonical_of_validate hvalid
  have hnodup := hcanonical.nodup_keyOf
  refine ⟨fun c => hcanonical.isSome_keyOf, hnodup, ?_, ?_, ?_, authority_of_validate hvalid⟩
  · intro c hc
    obtain ⟨i, hi⟩ := List.mem_iff_getElem?.1 hc
    obtain ⟨e, he, hurl, -⟩ := buildCandidatesFrom_spec hcollected hi
    exact ⟨e, hkeeps.subset he, by rw [hurl]⟩
  · intro i c hc s hs hkey
    obtain ⟨e, he, hurl, hrole, hauth, hsites, hhub⟩ := buildCandidatesFrom_spec hcollected hc
    obtain ⟨t, ht, htkey, hagrees⟩ := hkeeps.agrees s hs
    -- the entry kept for `s` has a candidate too, and that is `c`
    obtain ⟨d, hd, hdurl⟩ := url_mem_buildCandidatesFrom crate specs
      (hcollected.listed t ht)
    have hdc : d = c := by
      apply List.inj_on_of_nodup_map hnodup hd (List.mem_of_getElem? hc)
      rw [hdurl, htkey, hkey]
    have hte : t = e := by
      have hfound := hcollected.found t ht
      rw [← hdurl, hdc, hurl, hcollected.found e he] at hfound
      exact (Option.some.inj hfound).symm
    obtain ⟨h₁, h₂, h₃, h₄⟩ := CandidateSpec.agrees_iff.1 hagrees
    subst hte
    exact ⟨by rw [hrole, h₁], by rw [hauth, h₂], by rw [hsites, h₃], by rw [hhub, h₄]⟩
  · intro s hs
    obtain ⟨t, ht, hkey, -⟩ := hkeeps.agrees s hs
    obtain ⟨c, hc, hurl⟩ := url_mem_buildCandidatesFrom crate specs
      (hcollected.listed t ht)
    exact ⟨c, hc, by rw [hurl, hkey]⟩

theorem eq_nil_of_covers {named : List CandidateSpec} (h : Consistent crate named []) :
    named = [] := by
  rw [List.eq_nil_iff_forall_not_mem]
  intro s hs
  obtain ⟨c, hc, -⟩ := h.covers s hs
  cases hc

/-- **Consistent configuration.**  What `resolveCandidateTiers` accepts it has read in full: the
candidates have canonical URLs of their own, each says exactly what every entry that names its URL
says, no entry is left out, and one store at most is authoritative.  An accepted configuration has no
candidates only where it names none, and not in the JSON of the environment; one that is not accepted
takes the client offline, never to its local store. -/
theorem resolveCandidateTiers_consistent (crate : UrlCrate) (doubles : Doubles)
    (debug : String → String) (cfg : ConfigFile) (json list single : Option String) :
    ((resolveCandidateTiers crate doubles debug cfg json list single).2 = none →
      cfg.configurationError = none ∧ TierRead debug doubles cfg json list single ∧
      Consistent crate (namedSpecs debug doubles cfg json list single)
        (resolveCandidateTiers crate doubles debug cfg json list single).1 ∧
      ((resolveCandidateTiers crate doubles debug cfg json list single).1 = [] →
        json = none ∧ namedSpecs debug doubles cfg json list single = [])) ∧
    ∀ error, (resolveCandidateTiers crate doubles debug cfg json list single).2 = some error →
      ∀ w settings authorityOnly, settings.hubConfigError = some error →
      Resolution.begin w settings authorityOnly = .error (.offline settings.serverUrls []) := by
  constructor
  · intro h
    obtain ⟨hconfig, entries, urls, specs, hentries, hcollected, hcandidates, hvalid⟩ :=
      accepted_spec h
    obtain ⟨hread, hkeeps, hjson⟩ := tierEntries_spec hentries
    have hconsistent := consistent_of_keeps hkeeps hcollected hvalid
    rw [hcandidates]
    refine ⟨hconfig, hread, hconsistent, fun hnil => ?_⟩
    rw [hnil] at hconsistent
    have hnamed := eq_nil_of_covers hconsistent
    have hempty : entries = [] := List.subset_nil.1 (hnamed ▸ hkeeps.subset)
    exact ⟨hjson hempty, hnamed⟩
  · intro error _ w settings authorityOnly herror
    unfold Resolution.begin invalidConfig
    rw [herror, Option.isSome_some, Bool.true_or]
    rfl

/-! A file that names two hubs, one of them twice. -/

def sampleConfig : ConfigFile where
  serverUrl := none
  serverUrls := some (.arr [.str "http://h.lan:8400",
    .obj [("url", .str "http://h.lan:8400/sub"), ("token_env", .str "SUB")],
    .str "http://h.lan:8400/"])
  configurationError := none

theorem resolveCandidateTiers_consistent_sample :
    Consistent sampleCrate (namedSpecs id plainDoubles sampleConfig none none none)
      (resolveCandidateTiers sampleCrate plainDoubles id sampleConfig none none none).1 :=
  ((resolveCandidateTiers_consistent sampleCrate plainDoubles id sampleConfig none none none).1
    (by decide +kernel)).2.2.1

end AgentHub.Routes
