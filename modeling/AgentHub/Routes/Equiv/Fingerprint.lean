import AgentHub.Json.Equiv.Utf8
import AgentHub.Network.Location
import AgentHub.Routes.Equiv.Auth
import AgentHub.Routes.Fingerprint
import Mathlib.Data.Finset.Dedup

/-!
# Different surroundings have different cache keys

The hashed encoding has no counts: the sites of a candidate end where its hub field stands, and the
hub field is followed by the URL of the next candidate.  A URL has a colon and a site or hub name has
none, which is what `fields_injective` goes by.  After the hash, whose length is fixed, an `@` or a `#`
says whether locations follow; names have neither, nor a comma.

The whole key is then told apart as well (`routingFingerprint_injective`).
-/

namespace AgentHub.Routes

open AgentHub.Json AgentHub.Outbox AgentHub.Framing AgentHub.Network

/-- A candidate as the configuration checks it. -/
structure CheckedCandidate (crate : UrlCrate) (c : HubCandidate) : Prop where
  url : ∃ allowQuery url, parseHubUrl crate c.url allowQuery = .ok url
  sites : ∀ site ∈ c.sites, validSiteName site = true
  hub : ∀ hub ∈ c.hub, validSiteName hub = true

/-- Names of sites, where there are any. -/
def CheckedLocations (locations : Option (List String)) : Prop :=
  ∀ names ∈ locations, ∀ name ∈ names, validSiteName name = true

variable {crate : UrlCrate}

/-! ### Texts -/

theorem validSiteName_chars {name : String} (h : validSiteName name = true) {c : Char}
    (hc : c ∈ name.toList) : c.isAlphanum = true ∨ c = '.' ∨ c = '_' ∨ c = '-' := by
  unfold validSiteName at h
  simp only [Bool.and_eq_true] at h
  have hall := List.all_eq_true.1 h.2 c hc
  simpa [or_assoc] using hall

/-- A character that is none of the alphabet is in no name. -/
theorem validSiteName_notMem {name : String} (h : validSiteName name = true) {c : Char}
    (hc : c.isAlphanum = false ∧ c ≠ '.' ∧ c ≠ '_' ∧ c ≠ '-') : c ∉ name.toList := by
  intro hmem
  rcases validSiteName_chars h hmem with halnum | rfl | rfl | rfl
  · rw [hc.1] at halnum
    cases halnum
  · exact hc.2.1 rfl
  · exact hc.2.2.1 rfl
  · exact hc.2.2.2 rfl

theorem validSiteName_ne_empty {name : String} (h : validSiteName name = true) : name ≠ "" := by
  rintro rfl
  cases h

theorem eq_colon_of_toLower {c : Char} (h : c.toLower = ':') : c = ':' := by
  unfold Char.toLower at h
  split at h
  · next hupper =>
    have hval := congrArg (fun d : Char => d.val.toNat) h
    have hle := UInt32.le_iff_toNat_le.1 hupper.2
    have hge := UInt32.le_iff_toNat_le.1 hupper.1
    simp only [UInt32.toNat_add, Char.reduceVal, UInt32.reduceSub, UInt32.reduceToNat] at hval hle hge
    omega
  · exact h

/-- A URL of a hub has the colon after its scheme. -/
theorem colon_mem_url {value : String} {allowQuery : Bool} {url : Url}
    (h : parseHubUrl crate value allowQuery = .ok url) : ':' ∈ value.toList := by
  unfold parseHubUrl at h
  split at h
  · cases h
  split at h
  · cases h
  next parsed _ =>
  split at h
  · cases h
  next hnone =>
  unfold hubUrlError at hnone
  split_ifs at hnone with hscheme
  simp only [not_or, not_not] at hscheme
  have hcolon : ':' ∈ (parsed.scheme ++ "://").toList := by simp
  rw [← hscheme.1] at hcolon
  obtain ⟨c, hc, hlower⟩ := List.mem_map.1 hcolon
  rw [eq_colon_of_toLower hlower] at hc
  exact List.mem_of_mem_take hc

/-! ### The digest in hexadecimal digits -/

theorem digitChar_injective {m n : Nat} (hm : m < 16) (hn : n < 16)
    (h : Nat.digitChar m = Nat.digitChar n) : m = n := by
  have hm' := hexValue_digitChar m hm
  rw [h, hexValue_digitChar n hn] at hm'
  exact (Option.some.inj hm').symm

theorem hexDigits_injective {bytes : List UInt8} : ∀ {bytes' : List UInt8},
    (bytes.flatMap fun b => [Nat.digitChar (b.toNat / 16), Nat.digitChar (b.toNat % 16)]) =
      (bytes'.flatMap fun b => [Nat.digitChar (b.toNat / 16), Nat.digitChar (b.toNat % 16)]) →
    bytes = bytes' := by
  induction bytes with
  | nil =>
    intro bytes' h
    cases bytes' with
    | nil => rfl
    | cons b bs => cases h
  | cons a as ih =>
    intro bytes' h
    cases bytes' with
    | nil => cases h
    | cons b bs =>
      rw [List.flatMap_cons, List.flatMap_cons] at h
      obtain ⟨hhigh, h⟩ := List.cons.inj h
      obtain ⟨hlow, htail⟩ := List.cons.inj h
      have ha := a.toNat_lt
      have hb := b.toNat_lt
      have hdiv := digitChar_injective (by omega) (by omega) hhigh
      have hmod := digitChar_injective (by omega) (by omega) hlow
      rw [ih htail, UInt8.toNat_inj.1 (show a.toNat = b.toNat by omega)]

theorem hex_injective {d d' : Digest} (h : d.hex = d'.hex) : d = d' := by
  obtain ⟨bytes, hlength⟩ := d
  obtain ⟨bytes', hlength'⟩ := d'
  obtain rfl : bytes = bytes' := hexDigits_injective (String.ofList_injective h)
  rfl

theorem length_hex (d : Digest) : d.hex.toList.length = 64 := by
  rw [Digest.hex, String.toList_ofList, List.length_flatMap]
  simp [d.length_eq]

/-! ### Candidates -/

theorem asStr_injective {a b : HubRole} (h : a.asStr = b.asStr) : a = b := by
  cases a <;> cases b <;> first | rfl | exact absurd h (by decide)

/-- What stands before the sites tells the credential sources apart. -/
theorem authFields_injective {a b : CandidateAuth} {rest rest' : List String}
    (h : a.fields ++ "sites" :: rest = b.fields ++ "sites" :: rest') : a = b ∧ rest = rest' := by
  cases a <;> cases b <;> simp_all [CandidateAuth.fields]

/-- A field that is neither a site nor a hub. -/
def NoColon (field : String) : Prop := ':' ∉ field.toList

theorem CheckedCandidate.noColon {c : HubCandidate} (h : CheckedCandidate crate c) :
    ∀ field ∈ c.sites ++ [c.hub.getD ""], NoColon field := by
  intro field hfield
  have hcolon : (':' : Char).isAlphanum = false ∧ ':' ≠ '.' ∧ ':' ≠ '_' ∧ ':' ≠ '-' := by decide
  rcases List.mem_append.1 hfield with hsite | hhub
  · exact validSiteName_notMem (h.sites field hsite) hcolon
  · rw [List.mem_singleton.1 hhub]
    cases hc : c.hub with
    | none => simp [NoColon]
    | some hub => exact validSiteName_notMem (h.hub hub hc) hcolon

/-- The fields of the candidates that follow start with a URL. -/
theorem head_colon {cs : List HubCandidate} (h : ∀ c ∈ cs, CheckedCandidate crate c) :
    ∀ field ∈ (cs.flatMap HubCandidate.fields).head?, ¬NoColon field := by
  cases cs with
  | nil => simp
  | cons c cs =>
    intro field hfield
    obtain rfl : c.url = field := by simpa [HubCandidate.fields] using hfield
    obtain ⟨_, _, hurl⟩ := (h c List.mem_cons_self).url
    exact not_not.2 (colon_mem_url hurl)

theorem hub_injective {a b : Option String} (ha : ∀ hub ∈ a, validSiteName hub = true)
    (hb : ∀ hub ∈ b, validSiteName hub = true) (h : a.getD "" = b.getD "") : a = b := by
  cases a with
  | none =>
    cases b with
    | none => rfl
    | some hub => exact absurd h.symm (validSiteName_ne_empty (hb hub rfl))
  | some hub =>
    cases b with
    | none => exact absurd h (validSiteName_ne_empty (ha hub rfl))
    | some hub' => exact congrArg some h

theorem fields_append (c : HubCandidate) (rest : List String) :
    c.fields ++ rest =
      c.url :: c.role.asStr :: (c.auth.fields ++ "sites" :: ((c.sites ++ [c.hub.getD ""]) ++ rest)) := by
  simp [HubCandidate.fields]

/-- Candidates with the same fields one after the other are the same candidates. -/
theorem fields_injective {cs : List HubCandidate} : ∀ {cs' : List HubCandidate},
    (∀ c ∈ cs, CheckedCandidate crate c) → (∀ c ∈ cs', CheckedCandidate crate c) →
    cs.flatMap HubCandidate.fields = cs'.flatMap HubCandidate.fields → cs = cs' := by
  induction cs with
  | nil =>
    intro cs' _ _ h
    cases cs' with
    | nil => rfl
    | cons c' cs' => cases h
  | cons c cs ih =>
    intro cs' hcs hcs' h
    cases cs' with
    | nil => cases h
    | cons c' cs' =>
      have hc := hcs c List.mem_cons_self
      have hc' := hcs' c' List.mem_cons_self
      have htail := fun d hd => hcs d (List.mem_cons_of_mem c hd)
      have htail' := fun d hd => hcs' d (List.mem_cons_of_mem c' hd)
      -- the fields of the first candidate stand in front
      rw [List.flatMap_cons, List.flatMap_cons, fields_append, fields_append] at h
      obtain ⟨hurl, h⟩ := List.cons.inj h
      obtain ⟨hrole, h⟩ := List.cons.inj h
      obtain ⟨hauth, h⟩ := authFields_injective h
      obtain ⟨hnames, hrest⟩ :=
        -- the site names end before the next field
        append_inj_of_stop hc.noColon hc'.noColon (head_colon htail) (head_colon htail') h
      obtain ⟨hsites, hhub⟩ := List.append_inj' hnames rfl
      have hhubs := hub_injective hc.hub hc'.hub (List.cons.inj hhub).1
      have hroles := asStr_injective hrole
      rw [ih htail htail' hrest]
      -- each part agrees
      cases c
      cases c'
      simp only at hurl hroles hauth hsites hhubs
      rw [hurl, hroles, hauth, hsites, hhubs]

theorem fingerprintBytes_injective {cs cs' : List HubCandidate}
    (hcs : ∀ c ∈ cs, CheckedCandidate crate c) (hcs' : ∀ c ∈ cs', CheckedCandidate crate c)
    (hlen : ∀ c ∈ cs ++ cs', ∀ field ∈ c.fields, Text.len field < 2 ^ 64)
    (h : fingerprintBytes cs = fingerprintBytes cs') : cs = cs' := by
  have hbelow : ∀ ds ⊆ cs ++ cs', ∀ bytes ∈ (fingerprintFields ds).map fun field => utf8 field.toList,
      bytes.length < fieldCode.limit := by
    intro ds hds bytes hbytes
    obtain ⟨field, hfield, rfl⟩ := List.mem_map.1 hbytes
    change (utf8 field.toList).length < 256 ^ 8
    rw [length_utf8, utf8Len_toList]
    rcases List.mem_cons.1 hfield with rfl | hfield
    · decide
    · obtain ⟨c, hc, hfield⟩ := List.mem_flatMap.1 hfield
      exact hlen c (hds hc) field hfield
  have hfields := fieldCode.frame_injective (hbelow cs (List.subset_append_left _ _))
    (hbelow cs' (List.subset_append_right _ _)) h
  have hinjective : Function.Injective fun field : String => utf8 field.toList :=
    fun a b hab => String.toList_injective (utf8_injective hab)
  have hall := List.map_injective_iff.2 hinjective hfields
  exact fields_injective hcs hcs' (List.cons.inj hall).2

/-! ### Locations -/

/-- The names of a list, each behind a comma. -/
def listed (names : List String) : List Char := names.flatMap fun name => ',' :: name.toList

theorem join_toList (s : String) (names : List String) :
    (Text.join "," (s :: names)).toList = s.toList ++ listed names := by
  induction names generalizing s with
  | nil => simp [Text.join, listed]
  | cons t rest ih =>
    rw [Text.join, String.toList_append, String.toList_append, ih]
    simp [listed]

theorem head_listed (names : List String) : ∀ c ∈ (listed names).head?, ¬c ≠ ',' := by
  intro c hc
  cases names with
  | nil => cases hc
  | cons t rest =>
    obtain rfl : ',' = c := by simpa [listed] using hc
    exact not_not.2 rfl

theorem ne_comma {name : String} (h : validSiteName name = true) : ∀ c ∈ name.toList, c ≠ ',' := by
  rintro c hc rfl
  exact validSiteName_notMem h (by decide) hc

theorem listed_injective {names : List String} : ∀ {names' : List String},
    (∀ name ∈ names, validSiteName name = true) → (∀ name ∈ names', validSiteName name = true) →
    listed names = listed names' → names = names' := by
  induction names with
  | nil =>
    intro names' _ _ h
    cases names' with
    | nil => rfl
    | cons t rest' => cases h
  | cons s rest ih =>
    intro names' hvalid hvalid' h
    cases names' with
    | nil => cases h
    | cons t rest' =>
      rw [listed, listed, List.flatMap_cons, List.flatMap_cons] at h
      obtain ⟨hname, htail⟩ := append_inj_of_stop (ne_comma (hvalid s List.mem_cons_self))
        (ne_comma (hvalid' t List.mem_cons_self)) (head_listed rest) (head_listed rest')
        (List.cons.inj h).2
      rw [String.toList_injective hname, ih (fun n hn => hvalid n (List.mem_cons_of_mem _ hn))
        (fun n hn => hvalid' n (List.mem_cons_of_mem _ hn)) htail]

/-- Behind a comma the joined names are the listed ones, unless there are none. -/
theorem comma_join {names : List String} (h : names ≠ []) :
    ',' :: (Text.join "," names).toList = listed names := by
  cases names with
  | nil => exact absurd rfl h
  | cons s rest => rw [join_toList]; rfl

theorem join_ne_empty {names : List String} (hvalid : ∀ name ∈ names, validSiteName name = true)
    (h : names ≠ []) : Text.join "," names ≠ "" := by
  intro hempty
  cases names with
  | nil => exact h rfl
  | cons s rest =>
    have hchars := join_toList s rest
    rw [hempty] at hchars
    have hs : s.toList = [] := (List.append_eq_nil_iff.1 hchars.symm).1
    exact validSiteName_ne_empty (hvalid s List.mem_cons_self) (String.toList_eq_nil_iff.1 hs)

theorem join_injective {names names' : List String}
    (hvalid : ∀ name ∈ names, validSiteName name = true)
    (hvalid' : ∀ name ∈ names', validSiteName name = true)
    (h : Text.join "," names = Text.join "," names') : names = names' := by
  by_cases hnil : names = []
  · by_contra hne
    subst hnil
    exact join_ne_empty hvalid' (Ne.symm hne) h.symm
  · by_cases hnil' : names' = []
    · subst hnil'
      exact absurd h (join_ne_empty hvalid hnil)
    · refine listed_injective hvalid hvalid' ?_
      rw [← comma_join hnil, ← comma_join hnil', h]

theorem perm_sorted (names : List String) : (Text.sorted names).Perm names :=
  List.mergeSort_perm _ _

/-- What stands between the hash and the network. -/
def locatedChars : Option (List String) → List Char
  | none => []
  | some names => '@' :: (Text.join "," (Text.sorted names)).toList

theorem routingFingerprint_toList (sha256 : List UInt8 → Digest) (cs : List HubCandidate)
    (locations : Option (List String)) (network : String) :
    (routingFingerprint sha256 cs locations network).toList =
      (candidatesFingerprint sha256 cs).toList ++ (locatedChars locations ++ '#' :: network.toList) := by
  cases locations <;> simp [routingFingerprint, locatedChars]

theorem listed_chars {names : List String} (h : ∀ name ∈ names, validSiteName name = true) :
    ∀ c ∈ listed names, c ≠ '#' := by
  rintro c hc rfl
  obtain ⟨name, hname, hc⟩ := List.mem_flatMap.1 hc
  rcases List.mem_cons.1 hc with hcomma | hc
  · cases hcomma
  · exact validSiteName_notMem (h name hname) (by decide) hc

theorem sorted_valid {names : List String} (h : ∀ name ∈ names, validSiteName name = true) :
    ∀ name ∈ Text.sorted names, validSiteName name = true :=
  fun name hname => h name ((perm_sorted names).subset hname)

theorem locatedChars_ne {locations : Option (List String)}
    (h : CheckedLocations locations) : ∀ c ∈ locatedChars locations, c ≠ '#' := by
  cases locations with
  | none => simp [locatedChars]
  | some names =>
    intro c hc
    rcases List.mem_cons.1 hc with rfl | hc
    · decide
    · by_cases hnil : Text.sorted names = []
      · rw [hnil] at hc
        cases hc
      · refine listed_chars (sorted_valid (h names rfl)) c ?_
        rw [← comma_join hnil]
        exact List.mem_cons_of_mem _ hc

/-- The sets of names, where there are any. -/
theorem locations_of_chars {locations locations' : Option (List String)}
    (h : CheckedLocations locations) (h' : CheckedLocations locations')
    (heq : locatedChars locations = locatedChars locations') :
    locations.map List.toFinset = locations'.map List.toFinset := by
  cases locations with
  | none =>
    cases locations' with
    | none => rfl
    | some names' => cases heq
  | some names =>
    cases locations' with
    | none => cases heq
    | some names' =>
      have hsorted := join_injective (sorted_valid (h names rfl))
        (sorted_valid (h' names' rfl)) (String.toList_injective (List.cons.inj heq).2)
      have hperm : names.Perm names' :=
        (perm_sorted names).symm.trans (hsorted ▸ perm_sorted names')
      rw [Option.map_some, Option.map_some, List.toFinset_eq_of_perm _ _ hperm]

/-- **One key for one set of surroundings.**  Two checked lists of candidates, each with locations
and a network, have one key only if they have the same candidates in the same order, the same set of
locations (no locations known, and none found, being different) and the same network, where SHA-256
does not map the bytes of two different lists to one digest.  A length is that of a text in memory. -/
theorem routingFingerprint_injective (crate : UrlCrate) (sha256 : List UInt8 → Digest)
    {cs cs' : List HubCandidate} {locations locations' : Option (List String)}
    {network network' : String}
    (hcs : ∀ c ∈ cs, CheckedCandidate crate c) (hcs' : ∀ c ∈ cs', CheckedCandidate crate c)
    (hlen : ∀ c ∈ cs ++ cs', ∀ field ∈ c.fields, Text.len field < 2 ^ 64)
    (hlocations : CheckedLocations locations) (hlocations' : CheckedLocations locations')
    (hsha : sha256 (fingerprintBytes cs) = sha256 (fingerprintBytes cs') →
      fingerprintBytes cs = fingerprintBytes cs')
    (h : routingFingerprint sha256 cs locations network =
      routingFingerprint sha256 cs' locations' network') :
    cs = cs' ∧ locations.map List.toFinset = locations'.map List.toFinset ∧ network = network' := by
  have hchars := congrArg String.toList h
  rw [routingFingerprint_toList, routingFingerprint_toList] at hchars
  obtain ⟨hbase, hrest⟩ := List.append_inj hchars (by
    rw [candidatesFingerprint, candidatesFingerprint, digestHex, digestHex, length_hex, length_hex])
  have hbytes := hsha (hex_injective (String.toList_injective hbase))
  obtain ⟨hlocated, hnetwork⟩ := append_inj_of_stop (locatedChars_ne hlocations)
    (locatedChars_ne hlocations') (by simp) (by simp) hrest
  exact ⟨fingerprintBytes_injective hcs hcs' hlen hbytes,
    locations_of_chars hlocations hlocations' hlocated,
    String.toList_injective (List.cons.inj hnetwork).2⟩

/-! The key of two candidates whose locations are named in either order. -/

/-- The digest of `fingerprintBytes sampleCandidates`. -/
def sampleDigest : Digest where
  bytes := [19, 154, 223, 40, 125, 2, 22, 216, 150, 34, 198, 21, 11, 148, 81, 120, 122, 149, 157,
    253, 192, 242, 8, 154, 101, 243, 195, 119, 116, 1, 120, 152]
  length_eq := rfl

theorem checked_sampleCandidates : ∀ c ∈ sampleCandidates, CheckedCandidate sampleCrate c := by
  have hvalid : validateCandidates sampleCrate sampleCandidates = .ok () := by decide +kernel
  intro c hc
  refine ⟨⟨false, (canonical_of_validate hvalid).parses c hc⟩, ?_, ?_⟩
  · revert c
    decide +kernel
  · revert c
    decide +kernel

theorem sorted_swap : Text.sorted ["a", "b"] = Text.sorted ["b", "a"] := by
  simp [Text.sorted, List.mergeSort, List.MergeSort.Internal.splitInTwo]

theorem routingFingerprint_injective_sample :
    sampleCandidates = sampleCandidates ∧
      (some ["a", "b"]).map List.toFinset = (some ["b", "a"]).map List.toFinset ∧
      "00112233aabbccdd" = "00112233aabbccdd" :=
  routingFingerprint_injective sampleCrate (fun _ => sampleDigest) checked_sampleCandidates
    checked_sampleCandidates (by decide) (by simp [CheckedLocations]; decide)
    (by simp [CheckedLocations]; decide) (fun _ => rfl)
    (by rw [routingFingerprint, routingFingerprint, sorted_swap])

end AgentHub.Routes
