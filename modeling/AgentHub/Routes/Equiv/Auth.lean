import AgentHub.Routes.Candidates
import Mathlib.Data.List.Infix
import Mathlib.Data.List.Pairwise

/-!
# Credentials stay with the candidate they belong to

* `baseKey_eq`: two base URLs of one origin with one path up to trailing slashes have one key, so
  no two candidates of a validated list do.
* `scan_best`: the scan of such a list finds the candidate with the longest base path over the
  request, and never takes its ambiguous branch.
* `authorization_eq`: the global token has no part in the answer for a cloud candidate, for a public
  host, or for a candidate with a source of its own.

`credential_isolation` puts these together for every request URL.
-/

namespace AgentHub.Routes

variable {crate : UrlCrate}

/-! ### Base URLs -/

structure BaseUrl (url : Url) : Prop where
  username : url.username = ""
  password : url.password = none
  query : url.query = none
  fragment : url.fragment = none

theorem parseHubUrl_base {value : String} {url : Url} (h : parseHubUrl crate value false = .ok url) :
    BaseUrl url := by
  unfold parseHubUrl at h
  split at h
  · cases h
  split at h
  · cases h
  split at h
  · cases h
  next hnone =>
  cases h
  unfold hubUrlError at hnone
  split_ifs at hnone with _ _ huser hrest
  simp only [not_or, not_not, true_and] at huser hrest
  exact ⟨huser.1, huser.2, hrest.2, hrest.1⟩

theorem rdropWhile_append {p : Char → Bool} (a b : List Char) :
    (a ++ b).rdropWhile p =
      if b.rdropWhile p = [] then a.rdropWhile p else a ++ b.rdropWhile p := by
  simp only [List.rdropWhile, List.reverse_append, List.dropWhile_append, List.isEmpty_iff,
    List.reverse_eq_nil_iff]
  split_ifs
  · rfl
  · simp

/-- The origin fixes the port a URL is written with. -/
theorem port_eq {a b : Url} (h : a.origin = b.origin) : a.port = b.port := by
  have hscheme : a.scheme = b.scheme := congrArg Origin.scheme h
  have hport : (a.port.orElse fun _ => defaultPort a.scheme) =
      b.port.orElse fun _ => defaultPort b.scheme := congrArg Origin.port h
  have ha := a.port_ne_default
  have hb := b.port_ne_default
  rw [hscheme] at hport ha
  cases hpa : a.port with
  | none =>
    cases hpb : b.port with
    | none => rfl
    | some q =>
      rw [hpa, hpb] at hport
      exact absurd hport (hb q hpb)
  | some p =>
    cases hpb : b.port with
    | none =>
      rw [hpa, hpb] at hport
      exact absurd hport.symm (ha p hpa)
    | some q =>
      rw [hpa, hpb] at hport
      exact hport

theorem asStr_base {a : Url} (h : BaseUrl a) :
    a.asStr crate = (a.scheme ++ "://" ++ authorityText crate a.host a.port) ++ a.path := by
  simp [Url.asStr, h.username, h.password, h.query, h.fragment, String.append_assoc]

/-- Base URLs of one origin whose paths agree up to trailing slashes are the same hub. -/
theorem baseKey_eq {a b : Url} (ha : BaseUrl a) (hb : BaseUrl b) (horigin : a.origin = b.origin)
    (hpath : trimEndSlashes a.path = trimEndSlashes b.path) : baseKey crate a = baseKey crate b := by
  have hscheme : a.scheme = b.scheme := congrArg Origin.scheme horigin
  have hhost : a.host = b.host := congrArg Origin.host horigin
  have hdrop : a.path.toList.rdropWhile (· == '/') = b.path.toList.rdropWhile (· == '/') := by
    have := congrArg String.toList hpath
    simpa [trimEndSlashes, trimEndMatches] using this
  have hfront : (a.scheme ++ "://" ++ authorityText crate a.host a.port).toList =
      (b.scheme ++ "://" ++ authorityText crate b.host b.port).toList := by
    rw [hscheme, hhost, port_eq horigin]
  rw [baseKey, baseKey, asStr_base ha, asStr_base hb]
  unfold trimEndSlashes trimEndMatches
  rw [@String.toList_append (a.scheme ++ _ ++ _), @String.toList_append (b.scheme ++ _ ++ _), hfront,
    rdropWhile_append, rdropWhile_append, hdrop]

/-! ### Validated lists -/

/-- Every URL of the list parses, and no two have one key. -/
structure Canonical (crate : UrlCrate) (candidates : List HubCandidate) : Prop where
  parses : ∀ c ∈ candidates, ∃ base, parseHubUrl crate c.url false = .ok base
  apart : candidates.Pairwise fun c d => ∀ a b, parseHubUrl crate c.url false = .ok a →
    parseHubUrl crate d.url false = .ok b → baseKey crate a ≠ baseKey crate b

theorem canonicalKeys_spec {candidates : List HubCandidate} : ∀ {seen : List String},
    canonicalKeys crate seen candidates = .ok () →
      Canonical crate candidates ∧ ∀ c ∈ candidates, ∀ base,
        parseHubUrl crate c.url false = .ok base → baseKey crate base ∉ seen := by
  induction candidates with
  | nil =>
    intro seen _
    exact ⟨⟨by simp, .nil⟩, by simp⟩
  | cons c rest ih =>
    intro seen h
    unfold canonicalKeys at h
    cases hbase : parseHubUrl crate c.url false with
    | error e => rw [hbase] at h; cases h
    | ok base =>
      rw [hbase] at h
      change (if baseKey crate base ∈ seen then _ else _) = _ at h
      split at h
      · cases h
      next hnew =>
      obtain ⟨hrest, hseen⟩ := ih h
      refine ⟨⟨?_, ?_⟩, ?_⟩
      · intro d hd
        rcases List.mem_cons.1 hd with rfl | hd
        · exact ⟨base, hbase⟩
        · exact hrest.parses d hd
      · -- the first key is none of those seen later
        refine List.pairwise_cons.2 ⟨fun d hd a b ha hb => ?_, hrest.apart⟩
        have hab : base = a := by rw [hbase] at ha; exact Except.ok.inj ha
        have hnotin := hseen d hd b hb
        rw [← hab]
        exact fun heq => hnotin (by rw [heq]; exact List.mem_cons_self)
      · intro d hd b hb
        rcases List.mem_cons.1 hd with rfl | hd
        · rw [hbase] at hb
          rwa [← Except.ok.inj hb]
        · exact fun hin => hseen d hd b hb (List.mem_cons_of_mem _ hin)

theorem canonical_of_validate {candidates : List HubCandidate}
    (h : validateCandidates crate candidates = .ok ()) : Canonical crate candidates := by
  unfold validateCandidates at h
  cases hkeys : canonicalKeys crate [] candidates with
  | error e => rw [hkeys] at h; cases h
  | ok u => exact (canonicalKeys_spec hkeys).1

theorem Canonical.perm {candidates candidates' : List HubCandidate} (h : Canonical crate candidates)
    (hperm : candidates'.Perm candidates) : Canonical crate candidates' := by
  refine ⟨fun c hc => h.parses c (hperm.subset hc), (hperm.pairwise_iff ?_).2 h.apart⟩
  exact fun hcd a b ha hb heq => hcd b a hb ha heq.symm

theorem Canonical.left {l r : List HubCandidate} (h : Canonical crate (l ++ r)) :
    Canonical crate l :=
  ⟨fun c hc => h.parses c (List.mem_append_left r hc), (List.pairwise_append.1 h.apart).1⟩

/-! ### The candidate a request falls under -/

/-- The request falls under the candidate, whose base path is `path`. -/
def Under (crate : UrlCrate) (request : Url) (c : HubCandidate) (path : String) : Prop :=
  ∃ base, parseHubUrl crate c.url false = .ok base ∧ base.origin = request.origin ∧
    trimEndSlashes base.path = path ∧ coversPath path request.path = true

/-- The request falls under the candidate, and under none with a longer base path. -/
def Owner (crate : UrlCrate) (candidates : List HubCandidate) (request : Url) (c : HubCandidate) :
    Prop :=
  c ∈ candidates ∧ ∃ path, Under crate request c path ∧
    ∀ d ∈ candidates, ∀ other, Under crate request d other → Text.len other ≤ Text.len path

variable {request : Url}

theorem Under.path_eq {c : HubCandidate} {p q : String} (hp : Under crate request c p)
    (hq : Under crate request c q) : p = q := by
  obtain ⟨a, ha, -, rfl, -⟩ := hp
  obtain ⟨b, hb, -, rfl, -⟩ := hq
  rw [ha] at hb
  rw [Except.ok.inj hb]

theorem prefix_of_coversPath {path requestPath : String} (h : coversPath path requestPath = true) :
    path.toList <+: requestPath.toList := by
  simp only [coversPath, Bool.or_eq_true, beq_iff_eq, List.isPrefixOf_iff_prefix] at h
  rcases h with (rfl | rfl) | h
  · exact List.nil_prefix
  · exact List.prefix_rfl
  · exact (List.prefix_append _ _).trans h

theorem eq_of_prefix_of_len {p q : String} (h : p.toList <+: q.toList)
    (hlen : Text.len p = Text.len q) : p = q := by
  obtain ⟨t, ht⟩ := h
  have hq : q = p ++ String.ofList t := by
    apply String.toList_injective
    simp [ht]
  have hzero : (String.ofList t).utf8ByteSize = 0 := by
    rw [hq] at hlen
    simp only [Text.len, String.utf8ByteSize_append] at hlen
    omega
  rw [hq, String.utf8ByteSize_eq_zero_iff.1 hzero, String.append_empty]

/-- Base paths over one request that are equally long are the same. -/
theorem coversPath_eq {p q requestPath : String} (hp : coversPath p requestPath = true)
    (hq : coversPath q requestPath = true) (hlen : Text.len p = Text.len q) : p = q := by
  rcases List.prefix_or_prefix_of_prefix (prefix_of_coversPath hp) (prefix_of_coversPath hq)
    with h | h
  · exact eq_of_prefix_of_len h hlen
  · exact (eq_of_prefix_of_len h hlen.symm).symm

/-- No two candidates of a canonical list have equally long base paths over one request. -/
theorem Canonical.eq_of_len {candidates : List HubCandidate} (h : Canonical crate candidates)
    {c d : HubCandidate} (hc : c ∈ candidates) (hd : d ∈ candidates) {p q : String}
    (hp : Under crate request c p) (hq : Under crate request d q) (hlen : Text.len p = Text.len q) :
    c = d := by
  by_contra hne
  have hsymm : Std.Symm fun c d : HubCandidate => ∀ a b, parseHubUrl crate c.url false = .ok a →
      parseHubUrl crate d.url false = .ok b → baseKey crate a ≠ baseKey crate b :=
    ⟨fun _ _ hcd a b ha hb heq => hcd b a hb ha heq.symm⟩
  have hapart := h.apart.forall hc hd hne
  obtain ⟨a, ha, hao, hap, hac⟩ := hp
  obtain ⟨b, hb, hbo, hbp, hbc⟩ := hq
  have hpq : p = q := coversPath_eq hac hbc hlen
  exact hapart a b ha hb (baseKey_eq (parseHubUrl_base ha) (parseHubUrl_base hb) (hao.trans hbo.symm)
    (by rw [hap, hbp, hpq]))

theorem Owner.unique {candidates : List HubCandidate} (h : Canonical crate candidates)
    {c d : HubCandidate} (hc : Owner crate candidates request c)
    (hd : Owner crate candidates request d) : c = d := by
  obtain ⟨hcm, p, hp, hpmax⟩ := hc
  obtain ⟨hdm, q, hq, hqmax⟩ := hd
  have hpq := hpmax d hdm q hq
  have hqp := hqmax c hcm p hp
  exact h.eq_of_len hcm hdm hp hq (by omega)

/-! ### The scan -/

/-- What the scan has found after the candidates of a list. -/
def Best (crate : UrlCrate) (request : Url) (candidates : List HubCandidate) : Match → Prop
  | (none, n) => n = 0 ∧ ∀ c ∈ candidates, ∀ path, ¬Under crate request c path
  | (some c, n) => c ∈ candidates ∧ ∃ path, Under crate request c path ∧ n = Text.len path ∧
      ∀ d ∈ candidates, ∀ other, Under crate request d other → Text.len other ≤ n

/-- One turn keeps the best of what it has seen, and finds no tie. -/
theorem matchCandidate_best {seen : List HubCandidate} {c : HubCandidate}
    (hcanonical : Canonical crate (seen ++ [c])) {found : Match}
    (hfound : Best crate request seen found) :
    ∃ found', matchCandidate crate request found c = .ok found' ∧
      Best crate request (seen ++ [c]) found' := by
  obtain ⟨base, hbase⟩ := hcanonical.parses c (by simp)
  have hstep : matchCandidate crate request found c =
      if base.origin = request.origin ∧ coversPath (trimEndSlashes base.path) request.path then
        if found.1.isSome ∧ Text.len (trimEndSlashes base.path) = found.2 then
          .error "ambiguous canonical hub URL match"
        else if found.1 = none ∨ found.2 < Text.len (trimEndSlashes base.path) then
          .ok (some c, Text.len (trimEndSlashes base.path))
        else .ok found
      else .ok found := by
    simp only [matchCandidate, hbase]
    rfl
  rw [hstep]
  by_cases hunder : base.origin = request.origin ∧
      coversPath (trimEndSlashes base.path) request.path = true
  · have hc : Under crate request c (trimEndSlashes base.path) :=
      ⟨base, hbase, hunder.1, rfl, hunder.2⟩
    rw [if_pos hunder]
    rcases found with ⟨_ | b, n⟩
    · -- the first match
      obtain ⟨rfl, hnone⟩ := hfound
      refine ⟨(some c, Text.len (trimEndSlashes base.path)), by simp, by simp, _, hc, rfl, ?_⟩
      intro d hd other hother
      rcases List.mem_append.1 hd with hd | hd
      · exact absurd hother (hnone d hd other)
      · obtain rfl := List.mem_singleton.1 hd
        rw [hother.path_eq hc]
    · -- a second match of the same length would be the same hub
      obtain ⟨hb, path, hpath, rfl, hmax⟩ := hfound
      have hne : Text.len (trimEndSlashes base.path) ≠ Text.len path := by
        intro heq
        have hbc : b = c := hcanonical.eq_of_len (by simp [hb]) (by simp) hpath hc heq.symm
        have hapart := (List.pairwise_append.1 hcanonical.apart).2.2 b hb c (by simp)
        rw [hbc] at hapart
        exact hapart base base hbase hbase rfl
      rw [if_neg (by simp [hne])]
      -- the longer path wins
      by_cases hlt : Text.len path < Text.len (trimEndSlashes base.path)
      · rw [if_pos (.inr hlt)]
        refine ⟨_, rfl, by simp, _, hc, rfl, ?_⟩
        intro d hd other hother
        rcases List.mem_append.1 hd with hd | hd
        · have := hmax d hd other hother
          omega
        · obtain rfl := List.mem_singleton.1 hd
          rw [hother.path_eq hc]
      · rw [if_neg (by simpa using hlt)]
        refine ⟨_, rfl, by simp [hb], _, hpath, rfl, ?_⟩
        intro d hd other hother
        rcases List.mem_append.1 hd with hd | hd
        · exact hmax d hd other hother
        · obtain rfl := List.mem_singleton.1 hd
          rw [hother.path_eq hc]
          omega
  · -- the candidate does not cover the request
    rw [if_neg hunder]
    have hnot : ∀ other, ¬Under crate request c other := by
      rintro other ⟨b, hb, horigin, rfl, hcovers⟩
      rw [hbase] at hb
      obtain rfl := Except.ok.inj hb
      exact hunder ⟨horigin, hcovers⟩
    refine ⟨found, rfl, ?_⟩
    rcases found with ⟨_ | b, n⟩
    · refine ⟨hfound.1, fun d hd => ?_⟩
      rcases List.mem_append.1 hd with hd | hd
      · exact hfound.2 d hd
      · obtain rfl := List.mem_singleton.1 hd
        exact hnot
    · obtain ⟨hb, path, hpath, hn, hmax⟩ := hfound
      refine ⟨by simp [hb], path, hpath, hn, fun d hd other hother => ?_⟩
      rcases List.mem_append.1 hd with hd | hd
      · exact hmax d hd other hother
      · obtain rfl := List.mem_singleton.1 hd
        exact absurd hother (hnot other)

/-- The scan of a canonical list ends with its best match. -/
theorem scan_best {candidates : List HubCandidate} (h : Canonical crate candidates) (request : Url) :
    ∃ found, candidates.foldlM (matchCandidate crate request) (none, 0) = .ok found ∧
      Best crate request candidates found := by
  induction candidates using List.reverseRecOn with
  | nil => exact ⟨_, rfl, rfl, by simp⟩
  | append_singleton seen c ih =>
    obtain ⟨found, hfound, hbest⟩ := ih h.left
    obtain ⟨found', hfound', hbest'⟩ := matchCandidate_best h hbest
    refine ⟨found', ?_, hbest'⟩
    rw [List.foldlM_append, hfound]
    change List.foldlM (matchCandidate crate request) found [c] = _
    rw [List.foldlM_cons, hfound']
    rfl

/-- The best match does not depend on the order of the list. -/
theorem Best.unique {candidates candidates' : List HubCandidate} (h : Canonical crate candidates)
    (hmem : ∀ c, c ∈ candidates' ↔ c ∈ candidates) {found found' : Match}
    (hbest : Best crate request candidates found) (hbest' : Best crate request candidates' found') :
    found' = found := by
  rcases found with ⟨_ | c, n⟩ <;> rcases found' with ⟨_ | d, m⟩
  · rw [hbest.1, hbest'.1]
  · obtain ⟨hd, path, hpath, -, -⟩ := hbest'
    exact absurd hpath (hbest.2 d ((hmem d).1 hd) path)
  · obtain ⟨hc, path, hpath, -, -⟩ := hbest
    exact absurd hpath (hbest'.2 c ((hmem c).2 hc) path)
  · obtain ⟨hc, p, hp, hn, hcmax⟩ := hbest
    obtain ⟨hd, q, hq, hm, hdmax⟩ := hbest'
    have hle := hcmax d ((hmem d).1 hd) q hq
    have hge := hdmax c ((hmem c).2 hc) p hp
    have hcd := h.eq_of_len hc ((hmem d).1 hd) hp hq (by omega)
    rw [hcd, show m = n by omega]

theorem Best.owner {candidates : List HubCandidate} {c : HubCandidate} {n : Nat}
    (h : Best crate request candidates (some c, n)) : Owner crate candidates request c := by
  obtain ⟨hc, path, hpath, rfl, hmax⟩ := h
  exact ⟨hc, path, hpath, hmax⟩

/-! ### The global token -/

/-- The token that is the global one. -/
def IsGlobal (globalToken : Option String) (t : BearerToken) : Prop :=
  ∃ raw, globalToken = some raw ∧ tokenValue raw = .ok t

/-- The global token plays no part where it must not be sent. -/
theorem authorization_eq {c : HubCandidate} {base : Url}
    (hbase : parseHubUrl crate c.url false = .ok base)
    (h : c.role = .cloud ∨ publicHost base = true ∨ c.auth ≠ .global) (env : CredentialEnv)
    (g g' : Option String) : c.authorization crate g env = c.authorization crate g' env := by
  simp only [HubCandidate.authorization, hbase]
  cases hauth : c.auth with
  | «global» =>
    have hforbidden : c.role = .cloud ∨ publicHost base = true := by
      rcases h with h | h | h
      · exact .inl h
      · exact .inr h
      · exact absurd hauth h
    rw [if_pos hforbidden, if_pos hforbidden]
  | tokenFile path => rfl
  | tokenEnv name => rfl

/-- A candidate without a source of its own gets the global token or none. -/
theorem isGlobal_of_authorization {c : HubCandidate} (hauth : c.auth = .global) {env : CredentialEnv}
    {g : Option String} {t : BearerToken} (h : c.authorization crate g env = .ok (some t)) :
    IsGlobal g t := by
  unfold HubCandidate.authorization at h
  split at h
  · cases h
  rw [hauth] at h
  dsimp only at h
  split at h
  · cases h
  split at h
  · cases h
  next raw hfilter =>
  have hraw : g = some raw := (Option.filter_eq_some_iff.1 hfilter).1
  cases htoken : tokenValue raw with
  | error e =>
    rw [htoken] at h
    cases h
  | ok token =>
    rw [htoken] at h
    cases h
    exact ⟨raw, hraw, htoken⟩

theorem publicHost_congr {a b : Url} (h : a.origin = b.origin) : publicHost a = publicHost b := by
  have hhost : a.host = b.host := congrArg Origin.host h
  simp [publicHost, hhost]

/-- No scan of a canonical list fails, and none depends on the order of the list. -/
theorem credentialForUrl_perm {candidates candidates' : List HubCandidate}
    (h : Canonical crate candidates) (hperm : candidates'.Perm candidates) (g : Option String)
    (url : String) (env : CredentialEnv) :
    HubAuth.credentialForUrl crate ⟨g, candidates'⟩ url env =
      HubAuth.credentialForUrl crate ⟨g, candidates⟩ url env := by
  unfold HubAuth.credentialForUrl
  cases parseHubUrl crate url true with
  | error e => rfl
  | ok request =>
    obtain ⟨found, hscan, hbest⟩ := scan_best h request
    obtain ⟨found', hscan', hbest'⟩ := scan_best (h.perm hperm) request
    have hfound : found' = found := hbest.unique h (fun c => hperm.mem_iff) hbest'
    simp only [hscan, hscan', hfound]
    rfl

/-- What a request is answered with, by what its scan finds. -/
theorem credentialForUrl_cases {candidates : List HubCandidate} (h : Canonical crate candidates)
    {url : String} (hrequest : parseHubUrl crate url true = .ok request) (g : Option String)
    (env : CredentialEnv) :
    (∃ c, Owner crate candidates request c ∧
      HubAuth.credentialForUrl crate ⟨g, candidates⟩ url env = c.authorization crate g env) ∨
    ((∀ c ∈ candidates, ∀ path, ¬Under crate request c path) ∧
      HubAuth.credentialForUrl crate ⟨g, candidates⟩ url env =
        if publicHost request = true ∨ request.path ∉ servicePaths then
          .error "unmatched request URL is not a private service endpoint"
        else (serviceCandidate crate request).authorization crate g env) := by
  obtain ⟨found, hscan, hbest⟩ := scan_best h request
  rcases found with ⟨_ | c, n⟩
  · right
    refine ⟨hbest.2, ?_⟩
    simp only [HubAuth.credentialForUrl, hrequest, hscan]
  · left
    refine ⟨c, hbest.owner, ?_⟩
    simp only [HubAuth.credentialForUrl, hrequest, hscan, HubAuth.credentialFor]

/-- **Credential isolation.**  A token goes to the one candidate the request falls under with the
longest base path, and is that candidate's own; a request no candidate covers gets at most the global
token, at a service endpoint of a private host.  Where a public host, a cloud candidate or a
candidate with a source of its own is addressed, the answer is the same whatever the global token
is.  The scan never fails, and the order of the candidates plays no part. -/
theorem credential_isolation {candidates : List HubCandidate}
    (hvalid : validateCandidates crate candidates = .ok ()) (globalToken : Option String)
    (env : CredentialEnv) (url : String) :
    (∀ t, HubAuth.credentialForUrl crate ⟨globalToken, candidates⟩ url env = .ok (some t) →
      ∃ request, parseHubUrl crate url true = .ok request ∧
        ((∃ c, Owner crate candidates request c ∧
            (∀ d, Owner crate candidates request d → d = c) ∧
            c.authorization crate globalToken env = .ok (some t)) ∨
          ((∀ c ∈ candidates, ∀ path, ¬Under crate request c path) ∧
            publicHost request = false ∧ request.path ∈ servicePaths ∧ IsGlobal globalToken t))) ∧
    (∀ request, parseHubUrl crate url true = .ok request →
      (publicHost request = true ∨
        ∃ c, Owner crate candidates request c ∧ (c.role = .cloud ∨ c.auth ≠ .global)) →
      ∀ other, HubAuth.credentialForUrl crate ⟨globalToken, candidates⟩ url env =
        HubAuth.credentialForUrl crate ⟨other, candidates⟩ url env) ∧
    (∀ request, ∃ found,
      candidates.foldlM (matchCandidate crate request) (none, 0) = .ok found) ∧
    ∀ candidates', candidates'.Perm candidates →
      HubAuth.credentialForUrl crate ⟨globalToken, candidates'⟩ url env =
        HubAuth.credentialForUrl crate ⟨globalToken, candidates⟩ url env := by
  -- the keys of the candidates are apart
  have hcanonical := canonical_of_validate hvalid
  refine ⟨?_, ?_, ?_, fun candidates' hperm => credentialForUrl_perm hcanonical hperm _ _ _⟩
  · intro t ht
    cases hrequest : parseHubUrl crate url true with
    | error e =>
      rw [HubAuth.credentialForUrl, hrequest] at ht
      cases ht
    | ok request =>
      refine ⟨request, rfl, ?_⟩
      rcases credentialForUrl_cases hcanonical hrequest globalToken env with
        ⟨c, howner, hanswer⟩ | ⟨hnone, hanswer⟩
      · -- the request has an owner
        left
        exact ⟨c, howner, fun d hd => hd.unique hcanonical howner, hanswer ▸ ht⟩
      · -- it has none: a service path of this site
        right
        rw [hanswer] at ht
        split at ht
        · cases ht
        next hservice =>
        simp only [not_or, Bool.not_eq_true, not_not] at hservice
        exact ⟨hnone, hservice.1, hservice.2, isGlobal_of_authorization rfl ht⟩
  · -- the global token is not asked for in either case
    intro request hrequest hforbidden other
    rcases credentialForUrl_cases hcanonical hrequest globalToken env with
      ⟨c, howner, hanswer⟩ | ⟨hnone, hanswer⟩
    · rcases credentialForUrl_cases hcanonical hrequest other env with
        ⟨d, hd, hanswer'⟩ | ⟨hnone, -⟩
      · obtain rfl := hd.unique hcanonical howner
        obtain ⟨base, hbase, horigin, -⟩ := howner.2.choose_spec.1
        rw [hanswer, hanswer']
        apply authorization_eq hbase
        rcases hforbidden with hpublic | ⟨e, he, hsource⟩
        · right; left
          rw [publicHost_congr horigin, hpublic]
        · obtain rfl := he.unique hcanonical howner
          rcases hsource with hrole | hauth
          · exact .inl hrole
          · exact .inr (.inr hauth)
      · obtain ⟨hc, path, hpath, -⟩ := howner
        exact absurd hpath (hnone c hc path)
    · rcases credentialForUrl_cases hcanonical hrequest other env with
        ⟨d, hd, -⟩ | ⟨-, hanswer'⟩
      · obtain ⟨hc, path, hpath, -⟩ := hd
        exact absurd hpath (hnone d hc path)
      · rcases hforbidden with hpublic | ⟨e, ⟨he, path, hpath, -⟩, -⟩
        · rw [hanswer, hanswer', if_pos (.inl hpublic), if_pos (.inl hpublic)]
        · exact absurd hpath (hnone e he path)
  · -- the scan never meets two matches of one length
    intro request
    obtain ⟨found, hscan, -⟩ := scan_best hcanonical request
    exact ⟨found, hscan⟩

/-! A parser that knows the URLs of one host, two candidates on it, and a request under the second. -/

def sampleUrl (path : String) : Url where
  scheme := "http"
  username := ""
  password := none
  host := some (.domain "h.lan")
  port := some 8400
  path
  query := none
  fragment := none
  port_ne_default := by decide

def sampleCrate : UrlCrate where
  parse s :=
    if Text.startsWith s "http://h.lan:8400" then
      let path := String.ofList (s.toList.drop 17)
      some (sampleUrl (if path = "" then "/" else path))
    else none
  hostText
    | .domain name => name
    | _ => ""

def sampleCandidates : List HubCandidate :=
  [⟨"http://h.lan:8400", .authoritative, .global, [], none⟩,
   ⟨"http://h.lan:8400/sub", .fallback, .tokenEnv "SUB", [], none⟩]

def sampleEnv : CredentialEnv where
  var name := if name = "SUB" then some "sub-token" else none
  readToString _ := .error .notFound
  homeDir := none
  realProfileDir := none
  sameLocation a b := a == b
  joinPath a b := a ++ "/" ++ b
  quoted path := path

theorem credential_isolation_sub :
    ∃ request, parseHubUrl sampleCrate "http://h.lan:8400/sub/health" true = .ok request ∧
      ((∃ c, Owner sampleCrate sampleCandidates request c ∧
          (∀ d, Owner sampleCrate sampleCandidates request d → d = c) ∧
          c.authorization sampleCrate (some "global-token") sampleEnv =
            .ok (some ⟨"sub-token"⟩)) ∨
        ((∀ c ∈ sampleCandidates, ∀ path, ¬Under sampleCrate request c path) ∧
          publicHost request = false ∧ request.path ∈ servicePaths ∧
          IsGlobal (some "global-token") ⟨"sub-token"⟩)) :=
  (@credential_isolation sampleCrate sampleCandidates (by decide +kernel) _ _ _).1 _ (by decide +kernel)

end AgentHub.Routes
